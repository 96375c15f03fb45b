import Patchouli.Sqlite.Effect

/-!
# What holds of the tables

Four invariants, each about one group of tables, and a fifth that holds between transactions only:

* `StagingInv` — what a unit stages, its heads and its entities;
* `PublishedInv` — the published heads are the newest of the head history, and everything that is
  published lies below the frontier of its scope;
* `BaselineInv` — a captured baseline is the published state at the unit's cutoff;
* `IdempotencyInv` — the two tables of records share no identity;
* `HeadsStaged` — a live unit has a version of its own among its heads of every entity.

Each effect keeps them; for the publication of a unit the first four are kept entity by entity.

## Main definitions

* `Db.Inv` — all of them, with `CrdtInv`
* `Db.Extends` — how the tables evolve: what is published stays, and what is new is later

## Main results

* `Effect.inv` — every effect keeps the invariant
* `Effect.extends` — every effect extends the tables
-/

namespace Patchouli

namespace Db

variable {A : Automerge} {P : EntityKey → StoredEntityVersion → Prop} {db old new : Db}
  {key : EntityKey}

/-! ### The invariants -/

structure StagingInv (db : Db) : Prop where
  versionKeys : VersionKeys db
  unitKeys : (db.workUnits.map (·.identityJson)).Nodup
  entityUnits : ∀ e ∈ db.unitEntities, ∃ u ∈ db.workUnits,
    u.identityJson = e.workUnitJson ∧ u.scopeJson = e.key.scopeJson
  staged : ∀ r ∈ db.versions, ∀ unit, r.workUnitJson = some unit → r.publishedCursor = none ∧
    (∃ u ∈ db.workUnits, u.identityJson = unit ∧ u.Live) ∧ db.HasUnitHeads unit r.key
  headEntities : ∀ h ∈ db.unitHeads, ∃ e ∈ db.unitEntities,
    e.workUnitJson = h.workUnitJson ∧ e.key = h.key
  headVersions : ∀ h ∈ db.unitHeads, ∃ r ∈ db.versions, r.key = h.key ∧ r.version = h.version ∧
    (r.workUnitJson = some h.workUnitJson ∨ r.workUnitJson = none)
  headKeys : db.unitHeads.Nodup
  tokens : ∀ e ∈ db.unitEntities, ∀ token, e.causalToken = some token → ∀ u ∈ db.workUnits,
    u.identityJson = e.workUnitJson → u.Live → ∃ r ∈ db.versions, r.key = e.key ∧
      r.version = token ∧ (r.workUnitJson = some e.workUnitJson ∨ r.workUnitJson = none)
  entityKeys : (db.unitEntities.map fun e => (e.workUnitJson, e.key)).Nodup

/-- A row that was published at some cursor up to `cutoff`. -/
def PublishedBy (row : EntityVersionRow) (cutoff : ℕ) : Prop :=
  row.workUnitJson = none ∧ ∃ cursor, row.publishedCursor = some cursor ∧ cursor ≤ cutoff

structure PublishedInv (db : Db) : Prop where
  frontier : ∀ scope, db.currentScopeCursor scope ≤ db.lastCursor
  published : ∀ r ∈ db.versions, r.workUnitJson = none →
    PublishedBy r (db.currentScopeCursor r.key.scopeJson)
  headKeys : db.heads.Nodup
  newest : ∀ key version, ⟨key, version⟩ ∈ db.heads ↔ version ∈ db.headsAt key db.lastCursor
  history : ∀ h ∈ db.headHistory, h.cursor ≤ db.currentScopeCursor h.key.scopeJson ∧
    ∀ version ∈ h.headVersionsJson, ∃ r ∈ db.versions, r.key = h.key ∧ r.version = version ∧
      PublishedBy r h.cursor
  changes : ∀ c ∈ db.changes, db.IsPublished c.key c.causalToken ∧
    ∀ version ∈ c.headVersionsJson, db.IsPublished c.key version

structure BaselineInv (db : Db) : Prop where
  cutoff : ∀ u ∈ db.workUnits, u.baselineCursor ≤ db.currentScopeCursor u.scopeJson
  base : ∀ e ∈ db.unitEntities, ∀ u ∈ db.workUnits, u.identityJson = e.workUnitJson →
    ∀ version isHead, ⟨e.workUnitJson, e.key, version, isHead⟩ ∈ db.unitBaseVersions ↔
      (∃ r ∈ db.versions, r.key = e.key ∧ r.version = version ∧
        PublishedBy r u.baselineCursor) ∧
      isHead = decide (version ∈ db.headsAt e.key u.baselineCursor)
  entities : ∀ b ∈ db.unitBaseVersions, ∃ e ∈ db.unitEntities,
    e.workUnitJson = b.workUnitJson ∧ e.key = b.key
  keys : db.unitBaseVersions.Nodup

structure IdempotencyInv (db : Db) : Prop where
  units : ∀ r ∈ db.unitIdempotency, ∃ u ∈ db.workUnits, u.identityJson = r.workUnitJson ∧ u.Live
  recordKeys : (db.idempotency.map (·.identityJson)).Nodup
  unitRecordKeys : (db.unitIdempotency.map (·.record.identityJson)).Nodup
  disjoint : ∀ r ∈ db.idempotency, ∀ s ∈ db.unitIdempotency,
    r.identityJson ≠ s.record.identityJson

/-- A live unit has a version of its own among its heads of every entity. -/
def HeadsStaged (db : Db) : Prop :=
  ∀ u ∈ db.workUnits, u.Live → ∀ h ∈ db.unitHeads, h.workUnitJson = u.identityJson →
    ∃ version, ⟨u.identityJson, h.key, version⟩ ∈ db.unitHeads ∧
      db.StagedBy u.identityJson h.key version

/-- What holds of the tables between transactions. -/
structure Inv (A : Automerge) (db : Db) : Prop where
  staging : StagingInv db
  published : PublishedInv db
  baseline : BaselineInv db
  idempotency : IdempotencyInv db
  crdt : CrdtInv A db
  headsStaged : HeadsStaged db

/-! ### Lookups -/

theorem workUnit?_eq_some {identity : String} {row : WorkUnitRow}
    (h : db.workUnit? identity = some row) : row ∈ db.workUnits ∧ row.identityJson = identity :=
  ⟨List.mem_of_find?_eq_some h, by simpa using List.find?_some h⟩

theorem workUnit?_of_mem (hkeys : (db.workUnits.map (·.identityJson)).Nodup) {row : WorkUnitRow}
    (h : row ∈ db.workUnits) : db.workUnit? row.identityJson = some row := by
  cases hfound : db.workUnit? row.identityJson with
  | none =>
    have := List.find?_eq_none.mp hfound row h
    simp at this
  | some found =>
    obtain ⟨hmem, hid⟩ := workUnit?_eq_some hfound
    rw [Table.eq_of_key_eq (fun row : WorkUnitRow => row.identityJson) hkeys hmem h hid]

theorem StagingInv.unit_eq (inv : StagingInv db) {u u' : WorkUnitRow} (hu : u ∈ db.workUnits)
    (hu' : u' ∈ db.workUnits) (h : u.identityJson = u'.identityJson) : u = u' :=
  Table.eq_of_key_eq (fun row : WorkUnitRow => row.identityJson) inv.unitKeys hu hu' h

theorem mem_publishedHeads {version : String} :
    version ∈ db.publishedHeads key ↔ ⟨key, version⟩ ∈ db.heads := by
  simp only [publishedHeads, Table.mem_sorted, List.mem_map, List.mem_filter, decide_eq_true_eq]
  constructor
  · rintro ⟨⟨k, v⟩, ⟨hmem, rfl⟩, rfl⟩
    exact hmem
  · exact fun h => ⟨⟨key, version⟩, ⟨h, rfl⟩, rfl⟩

theorem mem_directWorkUnitHeads {unit version : String} :
    version ∈ db.directWorkUnitHeads unit key ↔ ⟨unit, key, version⟩ ∈ db.unitHeads := by
  simp only [directWorkUnitHeads, Table.mem_sorted, List.mem_map, List.mem_filter,
    decide_eq_true_eq]
  constructor
  · rintro ⟨⟨u, k, v⟩, ⟨hmem, rfl, rfl⟩, rfl⟩
    exact hmem
  · exact fun h => ⟨⟨unit, key, version⟩, ⟨h, rfl, rfl⟩, rfl⟩

theorem mem_workUnitBaseHeads {unit version : String} :
    version ∈ db.workUnitBaseHeads unit key ↔
      ⟨unit, key, version, true⟩ ∈ db.unitBaseVersions := by
  simp only [workUnitBaseHeads, Table.mem_sorted, List.mem_map, List.mem_filter,
    decide_eq_true_eq]
  constructor
  · rintro ⟨⟨u, k, v, b⟩, ⟨hmem, rfl, rfl, rfl⟩, rfl⟩
    exact hmem
  · exact fun h => ⟨⟨unit, key, version, true⟩, ⟨h, rfl, rfl, rfl⟩, rfl⟩

/-- A published head is a published version. -/
theorem PublishedInv.isPublished (inv : PublishedInv db) {version : String}
    (h : ⟨key, version⟩ ∈ db.heads) : db.IsPublished key version := by
  obtain ⟨row, hrow, hkey, -, hmem⟩ := mem_headsAt ((inv.newest key version).mp h)
  obtain ⟨r, hr, hrkey, hversion, hpublished⟩ := (inv.history row hrow).2 version hmem
  exact ⟨r, hr, hrkey.trans hkey, hversion, hpublished.1⟩

/-! ### Staging -/

namespace StagingInv

theorem congr (inv : StagingInv old) (hversions : new.versions = old.versions)
    (hunits : new.workUnits = old.workUnits) (hentities : new.unitEntities = old.unitEntities)
    (hheads : new.unitHeads = old.unitHeads) : StagingInv new := by
  refine ⟨?_, ?_, ?_, ?_, ?_, ?_, ?_, ?_, ?_⟩
  · simpa only [VersionKeys, hversions] using inv.versionKeys
  · simpa only [hunits] using inv.unitKeys
  · simpa only [hunits, hentities] using inv.entityUnits
  · simpa only [hversions, hunits, HasUnitHeads, hheads] using inv.staged
  · simpa only [hheads, hentities] using inv.headEntities
  · simpa only [hheads, hversions] using inv.headVersions
  · simpa only [hheads] using inv.headKeys
  · simpa only [hentities, hunits, hversions] using inv.tokens
  · simpa only [hentities] using inv.entityKeys

/-- A staged version belongs to one unit. -/
theorem not_stagedBy (inv : StagingInv db) {r : EntityVersionRow} (hr : r ∈ db.versions)
    {unit : String} (hne : r.workUnitJson ≠ some unit) : ¬ db.StagedBy unit r.key r.version := by
  rintro ⟨r', hr', hunit, hkey, hversion⟩
  exact hne (inv.versionKeys.eq hr hr' hkey.symm hversion.symm ▸ hunit)

/-- New units have no entities yet. -/
theorem openUnit (inv : StagingInv old) {unit : WorkUnitRow}
    (hnew : old.workUnit? unit.identityJson = none) (hversions : new.versions = old.versions)
    (hunits : new.workUnits = old.workUnits ++ [unit])
    (hentities : new.unitEntities = old.unitEntities) (hheads : new.unitHeads = old.unitHeads) :
    StagingInv new := by
  have hfresh : ∀ u ∈ old.workUnits, u.identityJson ≠ unit.identityJson := by
    intro u hu heq
    have := List.find?_eq_none.mp hnew u hu
    simp [heq] at this
  refine ⟨?_, ?_, ?_, ?_, ?_, ?_, ?_, ?_, ?_⟩
  · simpa only [VersionKeys, hversions] using inv.versionKeys
  · rw [hunits, List.map_append, List.nodup_append']
    refine ⟨inv.unitKeys, by simp, fun id hid hid' => ?_⟩
    obtain ⟨u, hu, rfl⟩ := List.mem_map.mp hid
    simp only [List.map_cons, List.map_nil, List.mem_singleton] at hid'
    exact hfresh u hu hid'
  · rw [hentities, hunits]
    intro e he
    obtain ⟨u, hu, h⟩ := inv.entityUnits e he
    exact ⟨u, List.mem_append_left _ hu, h⟩
  · rw [hversions, hunits]
    intro r hr id hid
    obtain ⟨hcursor, ⟨u, hu, hlive⟩, h, hh, hkey⟩ := inv.staged r hr id hid
    exact ⟨hcursor, ⟨u, List.mem_append_left _ hu, hlive⟩, h, hheads ▸ hh, hkey⟩
  · simpa only [hheads, hentities] using inv.headEntities
  · simpa only [hheads, hversions] using inv.headVersions
  · simpa only [hheads] using inv.headKeys
  · rw [hentities, hunits, hversions]
    intro e he token htoken u hu hid hlive
    rcases List.mem_append.mp hu with hu | hu
    · exact inv.tokens e he token htoken u hu hid hlive
    · obtain ⟨u', hu', hid', -⟩ := inv.entityUnits e he
      rw [List.mem_singleton.mp hu] at hid
      exact absurd (hid'.trans hid.symm) (hfresh u' hu')
  · simpa only [hentities] using inv.entityKeys

/-- A captured entity has nothing staged yet. -/
theorem capture (inv : StagingInv old) {unit : WorkUnitRow} {e : WorkUnitEntityRow}
    (hunit : unit ∈ old.workUnits) (hid : e.workUnitJson = unit.identityJson)
    (hscope : unit.scopeJson = e.key.scopeJson) (htoken : e.causalToken = none)
    (hnew : old.unitEntity? e.workUnitJson e.key = none)
    (hversions : new.versions = old.versions) (hunits : new.workUnits = old.workUnits)
    (hentities : new.unitEntities = old.unitEntities ++ [e])
    (hheads : new.unitHeads = old.unitHeads) : StagingInv new := by
  refine ⟨?_, ?_, ?_, ?_, ?_, ?_, ?_, ?_, ?_⟩
  · simpa only [VersionKeys, hversions] using inv.versionKeys
  · simpa only [hunits] using inv.unitKeys
  · rw [hentities, hunits]
    intro e' he'
    rcases List.mem_append.mp he' with he' | he'
    · exact inv.entityUnits e' he'
    · rw [List.mem_singleton.mp he']
      exact ⟨unit, hunit, hid.symm, hscope⟩
  · simpa only [hversions, hunits, HasUnitHeads, hheads] using inv.staged
  · rw [hheads, hentities]
    intro h hh
    obtain ⟨e', he', heq⟩ := inv.headEntities h hh
    exact ⟨e', List.mem_append_left _ he', heq⟩
  · simpa only [hheads, hversions] using inv.headVersions
  · simpa only [hheads] using inv.headKeys
  · rw [hentities, hunits, hversions]
    intro e' he' token htoken'
    rcases List.mem_append.mp he' with he' | he'
    · exact inv.tokens e' he' token htoken'
    · rw [List.mem_singleton.mp he', htoken] at htoken'
      cases htoken'
  · rw [hentities, List.map_append, List.nodup_append']
    refine ⟨inv.entityKeys, by simp, fun k hk hk' => ?_⟩
    obtain ⟨e', he', rfl⟩ := List.mem_map.mp hk
    simp only [List.map_cons, List.map_nil, List.mem_singleton, Prod.mk.injEq] at hk'
    have := List.find?_eq_none.mp hnew e' he'
    simp [hk'.1, hk'.2] at this

/-- Published rows are added. -/
theorem addPublished (inv : StagingInv old) {rows : List EntityVersionRow}
    (hfresh : ∀ r ∈ rows, ¬ old.HasVersion r.key r.version)
    (hnames : (rows.map fun r => (r.key, r.version)).Nodup)
    (hrows : ∀ r ∈ rows, r.workUnitJson = none)
    (hversions : new.versions = old.versions ++ rows) (hunits : new.workUnits = old.workUnits)
    (hentities : new.unitEntities = old.unitEntities) (hheads : new.unitHeads = old.unitHeads) :
    StagingInv new := by
  refine ⟨?_, ?_, ?_, ?_, ?_, ?_, ?_, ?_, ?_⟩
  · rw [VersionKeys, hversions, List.map_append, List.nodup_append']
    refine ⟨inv.versionKeys, hnames, fun k hk hk' => ?_⟩
    obtain ⟨r, hr, rfl⟩ := List.mem_map.mp hk
    obtain ⟨r', hr', heq⟩ := List.mem_map.mp hk'
    rw [Prod.mk.injEq] at heq
    exact hfresh r' hr' ⟨r, hr, heq.1.symm, heq.2.symm⟩
  · simpa only [hunits] using inv.unitKeys
  · simpa only [hunits, hentities] using inv.entityUnits
  · rw [hversions, hunits]
    intro r hr id hid
    rcases List.mem_append.mp hr with hr | hr
    · simpa only [HasUnitHeads, hheads] using inv.staged r hr id hid
    · rw [hrows r hr] at hid
      cases hid
  · simpa only [hheads, hentities] using inv.headEntities
  · rw [hheads, hversions]
    intro h hh
    obtain ⟨r, hr, heq⟩ := inv.headVersions h hh
    exact ⟨r, List.mem_append_left _ hr, heq⟩
  · simpa only [hheads] using inv.headKeys
  · rw [hentities, hunits, hversions]
    intro e he token htoken u hu hid hlive
    obtain ⟨r, hr, heq⟩ := inv.tokens e he token htoken u hu hid hlive
    exact ⟨r, List.mem_append_left _ hr, heq⟩
  · simpa only [hentities] using inv.entityKeys

/-- The heads of an entity in a unit after they were replaced. -/
theorem mem_replaced {unit : String} {heads : List String} {h : WorkUnitHeadRow} :
    h ∈ (old.unitHeads.filter fun head => ¬ (head.workUnitJson = unit ∧ head.key = key)) ++
        (Table.sorted heads).map (fun version => ⟨unit, key, version⟩) ↔
      (h ∈ old.unitHeads ∧ ¬ (h.workUnitJson = unit ∧ h.key = key)) ∨
        (h.workUnitJson = unit ∧ h.key = key ∧ h.version ∈ heads) := by
  simp only [List.mem_append, List.mem_filter, decide_eq_true_eq, List.mem_map, Table.mem_sorted]
  refine or_congr_right ⟨?_, ?_⟩
  · rintro ⟨version, hversion, rfl⟩
    exact ⟨rfl, rfl, hversion⟩
  · rintro ⟨rfl, rfl, hversion⟩
    exact ⟨h.version, hversion, rfl⟩

/-- A live unit stages versions of an entity and replaces its heads. `entities` says what is
recorded of the entities. -/
theorem addStaged (inv : StagingInv old) {unit : WorkUnitRow} {heads : List String}
    {versions : List StoredEntityVersion} {recordedAt : ℕ} {entities : List WorkUnitEntityRow}
    (hunit : unit ∈ old.workUnits) (hlive : unit.Live)
    (hfresh : ∀ v ∈ versions, ¬ old.HasVersion key v.version)
    (hnames : (versions.map (·.version)).Nodup) (hnodup : heads.Nodup) (hne : heads ≠ [])
    (hentity : (old.unitEntity? unit.identityJson key).isSome)
    (hheadVersions : ∀ version ∈ heads, version ∈ versions.map (·.version) ∨
      old.IsPublished key version ∨ old.StagedBy unit.identityJson key version)
    (hfrom : ∀ e' ∈ entities, ∃ e ∈ old.unitEntities, e.workUnitJson = e'.workUnitJson ∧
      e.key = e'.key ∧ (e'.causalToken = e.causalToken ∨ e.workUnitJson = unit.identityJson ∧
        e.key = key ∧ ∃ token ∈ versions.map (·.version), e'.causalToken = some token))
    (hto : ∀ e ∈ old.unitEntities, ∃ e' ∈ entities, e'.workUnitJson = e.workUnitJson ∧
      e'.key = e.key)
    (hkeys : (entities.map fun e => (e.workUnitJson, e.key)) =
      old.unitEntities.map fun e => (e.workUnitJson, e.key))
    (hversions : new.versions =
      old.versions ++ versions.map (insertedRow key (some unit.identityJson) recordedAt))
    (hunits : new.workUnits = old.workUnits) (hentities : new.unitEntities = entities)
    (hheads : new.unitHeads = (old.unitHeads.filter fun head =>
        ¬ (head.workUnitJson = unit.identityJson ∧ head.key = key)) ++
      (Table.sorted heads).map fun version => ⟨unit.identityJson, key, version⟩) :
    StagingInv new := by
  have hrow : ∀ v ∈ versions, insertedRow key (some unit.identityJson) recordedAt v ∈ new.versions :=
    fun v hv => hversions ▸ List.mem_append_right _ (List.mem_map_of_mem hv)
  have hold : ∀ r ∈ old.versions, r ∈ new.versions :=
    fun r hr => hversions ▸ List.mem_append_left _ hr
  have hmem : ∀ h, h ∈ new.unitHeads ↔
      (h ∈ old.unitHeads ∧ ¬ (h.workUnitJson = unit.identityJson ∧ h.key = key)) ∨
        (h.workUnitJson = unit.identityJson ∧ h.key = key ∧ h.version ∈ heads) := by
    intro h
    rw [hheads]
    exact mem_replaced
  have hown : new.HasUnitHeads unit.identityJson key := by
    obtain ⟨version, hversion⟩ := List.exists_mem_of_ne_nil heads hne
    exact ⟨⟨unit.identityJson, key, version⟩, (hmem _).mpr (Or.inr ⟨rfl, rfl, hversion⟩), rfl, rfl⟩
  refine ⟨?_, ?_, ?_, ?_, ?_, ?_, ?_, ?_, ?_⟩
  · rw [VersionKeys, hversions, List.map_append, List.nodup_append', List.map_map]
    refine ⟨inv.versionKeys, ?_, fun k hk hk' => ?_⟩
    · have : (versions.map fun v => (key, v.version)).Nodup := by
        rw [show (fun v : StoredEntityVersion => (key, v.version)) =
          (fun name => (key, name)) ∘ (·.version) from rfl, ← List.map_map]
        exact hnames.map fun a b h => (Prod.mk.inj h).2
      exact this
    · obtain ⟨r, hr, rfl⟩ := List.mem_map.mp hk
      obtain ⟨v, hv, heq⟩ := List.mem_map.mp hk'
      simp only [Function.comp_apply, insertedRow, Prod.mk.injEq] at heq
      exact hfresh v hv ⟨r, hr, heq.1.symm, heq.2.symm⟩
  · simpa only [hunits] using inv.unitKeys
  · rw [hentities, hunits]
    intro e' he'
    obtain ⟨e, he, hid, hkey, -⟩ := hfrom e' he'
    obtain ⟨u, hu, huid, huscope⟩ := inv.entityUnits e he
    exact ⟨u, hu, huid.trans hid, huscope.trans (by rw [hkey])⟩
  · intro r hr id hid
    rw [hversions] at hr
    rw [hunits]
    rcases List.mem_append.mp hr with hr | hr
    · obtain ⟨hcursor, hulive, h, hh, hhid, hhkey⟩ := inv.staged r hr id hid
      refine ⟨hcursor, hulive, ?_⟩
      by_cases hsame : h.workUnitJson = unit.identityJson ∧ h.key = key
      · rw [← hhid, ← hhkey, hsame.1, hsame.2]
        exact hown
      · exact ⟨h, (hmem h).mpr (Or.inl ⟨hh, hsame⟩), hhid, hhkey⟩
    · obtain ⟨v, hv, rfl⟩ := List.mem_map.mp hr
      obtain rfl : unit.identityJson = id := Option.some.inj hid
      exact ⟨rfl, ⟨unit, hunit, rfl, hlive⟩, hown⟩
  · intro h hh
    rw [hentities]
    have hfind : ∃ e ∈ old.unitEntities, e.workUnitJson = h.workUnitJson ∧ e.key = h.key := by
      rcases (hmem h).mp hh with ⟨hh, -⟩ | ⟨hid, hkey, -⟩
      · exact inv.headEntities h hh
      · obtain ⟨e, he⟩ := Option.isSome_iff_exists.mp hentity
        have := List.find?_some he
        simp only [decide_eq_true_eq] at this
        exact ⟨e, List.mem_of_find?_eq_some he, this.1.trans hid.symm, this.2.trans hkey.symm⟩
    obtain ⟨e, he, hid, hkey⟩ := hfind
    obtain ⟨e', he', hid', hkey'⟩ := hto e he
    exact ⟨e', he', hid'.trans hid, hkey'.trans hkey⟩
  · intro h hh
    rcases (hmem h).mp hh with ⟨hh, -⟩ | ⟨hid, hkey, hversion⟩
    · obtain ⟨r, hr, heq⟩ := inv.headVersions h hh
      exact ⟨r, hold r hr, heq⟩
    · rcases hheadVersions h.version hversion with hname | hpublished | hstaged
      · obtain ⟨v, hv, hname⟩ := List.mem_map.mp hname
        exact ⟨_, hrow v hv, hkey.symm, hname, Or.inl (by rw [hid]; rfl)⟩
      · obtain ⟨r, hr, hrkey, hrversion, hrunit⟩ := hpublished
        exact ⟨r, hold r hr, hrkey.trans hkey.symm, hrversion, Or.inr hrunit⟩
      · obtain ⟨r, hr, hrunit, hrkey, hrversion⟩ := hstaged
        exact ⟨r, hold r hr, hrkey.trans hkey.symm, hrversion, Or.inl (by rw [hid]; exact hrunit)⟩
  · rw [hheads, List.nodup_append']
    refine ⟨inv.headKeys.filter _, (Table.sorted_nodup hnodup).map fun a b h => ?_, ?_⟩
    · injection h
    · intro h hh hh'
      obtain ⟨version, -, rfl⟩ := List.mem_map.mp hh'
      have := (List.mem_filter.mp hh).2
      simp at this
  · intro e' he' token htoken u hu hid hulive
    rw [hentities] at he'
    rw [hunits] at hu
    obtain ⟨e, he, heid, hekey, htokens⟩ := hfrom e' he'
    rcases htokens with hsame | ⟨hunitId, hekey', token', hmemToken, htoken'⟩
    · obtain ⟨r, hr, hrkey, hrversion, hrunit⟩ :=
        inv.tokens e he token (hsame ▸ htoken) u hu (hid.trans heid.symm) hulive
      exact ⟨r, hold r hr, hrkey.trans hekey, hrversion, heid ▸ hrunit⟩
    · rw [htoken', Option.some.injEq] at htoken
      obtain ⟨v, hv, hname⟩ := List.mem_map.mp hmemToken
      exact ⟨_, hrow v hv, hekey'.symm.trans hekey, hname.trans htoken,
        Or.inl (by rw [← heid, hunitId]; rfl)⟩
  · rw [hentities, hkeys]
    exact inv.entityKeys

/-- Units change their state; a unit that ends has nothing staged. -/
theorem setStates (inv : StagingInv old) {states : WorkUnitRow → WorkUnitRow}
    (hid : ∀ u, (states u).identityJson = u.identityJson)
    (hscope : ∀ u, (states u).scopeJson = u.scopeJson)
    (hback : ∀ u, (states u).Live → u.Live)
    (hkeeps : ∀ u ∈ old.workUnits, u.Live → (states u).Live ∨
      ∀ r ∈ old.versions, r.workUnitJson ≠ some u.identityJson)
    (hversions : new.versions = old.versions) (hunits : new.workUnits = old.workUnits.map states)
    (hentities : new.unitEntities = old.unitEntities) (hheads : new.unitHeads = old.unitHeads) :
    StagingInv new := by
  refine ⟨?_, ?_, ?_, ?_, ?_, ?_, ?_, ?_, ?_⟩
  · simpa only [VersionKeys, hversions] using inv.versionKeys
  · rw [hunits, List.map_map, show (fun u : WorkUnitRow => u.identityJson) ∘ states =
      (·.identityJson) from funext hid]
    exact inv.unitKeys
  · rw [hentities, hunits]
    intro e he
    obtain ⟨u, hu, huid, huscope⟩ := inv.entityUnits e he
    exact ⟨states u, List.mem_map_of_mem hu, (hid u).trans huid, (hscope u).trans huscope⟩
  · rw [hversions, hunits]
    intro r hr id hrid
    obtain ⟨hcursor, ⟨u, hu, huid, hlive⟩, hhas⟩ := inv.staged r hr id hrid
    refine ⟨hcursor, ⟨states u, List.mem_map_of_mem hu, (hid u).trans huid, ?_⟩, ?_⟩
    · exact (hkeeps u hu hlive).resolve_right fun hnone => hnone r hr (huid ▸ hrid)
    · simpa only [HasUnitHeads, hheads] using hhas
  · simpa only [hheads, hentities] using inv.headEntities
  · simpa only [hheads, hversions] using inv.headVersions
  · simpa only [hheads] using inv.headKeys
  · rw [hentities, hunits, hversions]
    intro e he token htoken u' hu' hid' hlive'
    obtain ⟨u, hu, rfl⟩ := List.mem_map.mp hu'
    exact inv.tokens e he token htoken u hu ((hid u).symm.trans hid') (hback u hlive')
  · simpa only [hentities] using inv.entityKeys

/-- The unit's versions of an entity are published. -/
theorem publishEntity (inv : StagingInv old) {unit : String} {cursor : ℕ}
    (hversions : new.versions = old.versions.map (publishStaged unit key cursor))
    (hunits : new.workUnits = old.workUnits) (hentities : new.unitEntities = old.unitEntities)
    (hheads : new.unitHeads = old.unitHeads) : StagingInv new := by
  have hrow : ∀ r ∈ old.versions, ∀ u, r.workUnitJson = some u ∨ r.workUnitJson = none →
      ∃ r' ∈ new.versions, r'.key = r.key ∧ r'.version = r.version ∧
        (r'.workUnitJson = some u ∨ r'.workUnitJson = none) := by
    intro r hr u hu
    refine ⟨publishStaged unit key cursor r, hversions ▸ List.mem_map_of_mem hr,
      publishStaged_key .., publishStaged_version .., ?_⟩
    unfold publishStaged
    split
    · exact Or.inr rfl
    · exact hu
  refine ⟨?_, ?_, ?_, ?_, ?_, ?_, ?_, ?_, ?_⟩
  · rw [VersionKeys, hversions, List.map_map]
    have : (fun r : EntityVersionRow => (r.key, r.version)) ∘ publishStaged unit key cursor =
        fun r => (r.key, r.version) := by
      funext r
      simp
    rw [this]
    exact inv.versionKeys
  · simpa only [hunits] using inv.unitKeys
  · simpa only [hunits, hentities] using inv.entityUnits
  · rw [hversions, hunits]
    intro r' hr' id hid
    obtain ⟨r, hr, rfl⟩ := List.mem_map.mp hr'
    unfold publishStaged at hid ⊢
    split at hid
    · cases hid
    · rename_i hne
      rw [if_neg hne]
      simpa only [HasUnitHeads, hheads] using inv.staged r hr id hid
  · simpa only [hheads, hentities] using inv.headEntities
  · rw [hheads]
    intro h hh
    obtain ⟨r, hr, hkey, hversion, hunit⟩ := inv.headVersions h hh
    obtain ⟨r', hr', hkey', hversion', hunit'⟩ := hrow r hr _ hunit
    exact ⟨r', hr', hkey'.trans hkey, hversion'.trans hversion, hunit'⟩
  · simpa only [hheads] using inv.headKeys
  · rw [hentities, hunits]
    intro e he token htoken u hu hid hlive
    obtain ⟨r, hr, hkey, hversion, hunit⟩ := inv.tokens e he token htoken u hu hid hlive
    obtain ⟨r', hr', hkey', hversion', hunit'⟩ := hrow r hr _ hunit
    exact ⟨r', hr', hkey'.trans hkey, hversion'.trans hversion, hunit'⟩
  · simpa only [hentities] using inv.entityKeys

/-- A unit expires: what it staged goes, with the heads that name it. -/
theorem expire (inv : StagingInv old) {unit : String} {closedAt : ℕ}
    (hversions : new.versions = old.versions.filter (·.workUnitJson ≠ some unit))
    (hunits : new.workUnits = old.workUnits.map fun row =>
      if row.identityJson = unit ∧ row.Live then
        { row with state := .expired, closedAtUnixMs := some closedAt }
      else row)
    (hentities : new.unitEntities = old.unitEntities)
    (hheads : new.unitHeads =
      old.unitHeads.filter fun head => ¬ old.StagedBy unit head.key head.version) :
    StagingInv new := by
  have hkept : ∀ r, r ∈ new.versions ↔ r ∈ old.versions ∧ r.workUnitJson ≠ some unit := by
    intro r
    rw [hversions, List.mem_filter, decide_eq_true_eq]
  have hheadKept : ∀ h, h ∈ new.unitHeads ↔
      h ∈ old.unitHeads ∧ ¬ old.StagedBy unit h.key h.version := by
    intro h
    rw [hheads, List.mem_filter, decide_eq_true_eq]
  have hlive : ∀ u' ∈ new.workUnits, u'.Live → u' ∈ old.workUnits ∧ u'.identityJson ≠ unit := by
    intro u' hu' hulive
    rw [hunits] at hu'
    obtain ⟨u, hu, rfl⟩ := List.mem_map.mp hu'
    split at hulive
    · simp [WorkUnitRow.Live] at hulive
    · rename_i hne
      rw [if_neg hne]
      exact ⟨hu, fun hid => hne ⟨hid, hulive⟩⟩
  have hstays : ∀ u ∈ old.workUnits, u.identityJson ≠ unit → u ∈ new.workUnits := by
    intro u hu hne
    rw [hunits]
    refine List.mem_map.mpr ⟨u, hu, ?_⟩
    rw [if_neg fun h => hne h.1]
  refine ⟨?_, ?_, ?_, ?_, ?_, ?_, ?_, ?_, ?_⟩
  · rw [VersionKeys, hversions]
    exact inv.versionKeys.sublist ((List.filter_sublist).map _)
  · rw [hunits, List.map_map]
    have : (fun u : WorkUnitRow => u.identityJson) ∘ (fun row : WorkUnitRow =>
        if row.identityJson = unit ∧ row.Live then
          { row with state := .expired, closedAtUnixMs := some closedAt }
        else row) = (·.identityJson) := by
      funext u
      dsimp only [Function.comp_apply]
      split <;> rfl
    rw [this]
    exact inv.unitKeys
  · rw [hentities, hunits]
    intro e he
    obtain ⟨u, hu, hid, hscope⟩ := inv.entityUnits e he
    refine ⟨_, List.mem_map_of_mem hu, ?_⟩
    split
    · exact ⟨hid, hscope⟩
    · exact ⟨hid, hscope⟩
  · intro r hr id hid
    obtain ⟨hr, hne⟩ := (hkept r).mp hr
    obtain ⟨hcursor, ⟨u, hu, huid, hulive⟩, h, hh, hhid, hhkey⟩ := inv.staged r hr id hid
    have hidne : id ≠ unit := fun heq => hne (heq ▸ hid)
    refine ⟨hcursor, ⟨u, hstays u hu (huid ▸ hidne), huid, hulive⟩, h, ?_, hhid, hhkey⟩
    refine (hheadKept h).mpr ⟨hh, ?_⟩
    obtain ⟨rh, hrh, hrkey, hrversion, hrunit⟩ := inv.headVersions h hh
    rw [← hrkey, ← hrversion]
    refine inv.not_stagedBy hrh fun heq => ?_
    rcases hrunit with hrunit | hrunit
    · rw [heq, Option.some.injEq, hhid] at hrunit
      exact hidne hrunit.symm
    · rw [heq] at hrunit
      cases hrunit
  · intro h hh
    rw [hentities]
    exact inv.headEntities h ((hheadKept h).mp hh).1
  · intro h hh
    obtain ⟨hh, hnot⟩ := (hheadKept h).mp hh
    obtain ⟨r, hr, hkey, hversion, hunit⟩ := inv.headVersions h hh
    refine ⟨r, (hkept r).mpr ⟨hr, fun heq => hnot ⟨r, hr, heq, hkey, hversion⟩⟩, hkey, hversion,
      hunit⟩
  · rw [hheads]
    exact inv.headKeys.filter _
  · rw [hentities]
    intro e he token htoken u hu hid hulive
    obtain ⟨hu, hne⟩ := hlive u hu hulive
    obtain ⟨r, hr, hkey, hversion, hunit⟩ := inv.tokens e he token htoken u hu hid hulive
    refine ⟨r, (hkept r).mpr ⟨hr, fun heq => ?_⟩, hkey, hversion, hunit⟩
    rcases hunit with hunit | hunit
    · rw [heq, Option.some.injEq] at hunit
      exact hne (hid.trans hunit.symm)
    · rw [heq] at hunit
      cases hunit
  · simpa only [hentities] using inv.entityKeys

end StagingInv

/-! ### Publication -/

theorem currentScopeCursor_congr (h : new.scopeFrontier = old.scopeFrontier) (scope : String) :
    new.currentScopeCursor scope = old.currentScopeCursor scope := by
  simp only [currentScopeCursor, h]

/-- A publication moves the frontier of its scope to its cursor. -/
theorem currentScopeCursor_advance {scope causalToken : String} {cursor : ℕ}
    (h : new.scopeFrontier = advanceScopeFrontier scope cursor causalToken old.scopeFrontier)
    (s : String) :
    new.currentScopeCursor s = if s = scope then cursor else old.currentScopeCursor s := by
  simp only [currentScopeCursor, h, advanceScopeFrontier]
  by_cases hs : s = scope
  · subst hs
    have := Table.find?_upsert_self (·.scopeJson) (⟨s, cursor, causalToken⟩ : ScopeFrontierRow)
      (fun row => rfl : ∀ row : ScopeFrontierRow,
        ({ row with cursor, causalToken } : ScopeFrontierRow).scopeJson = row.scopeJson)
      old.scopeFrontier
    simp only at this
    rw [this, if_pos rfl]
    cases old.scopeFrontier.find? fun row => decide (row.scopeJson = s) <;> rfl
  · have := Table.find?_upsert_of_ne (·.scopeJson)
      (⟨scope, cursor, causalToken⟩ : ScopeFrontierRow)
      (fun row => rfl : ∀ row : ScopeFrontierRow,
        ({ row with cursor, causalToken } : ScopeFrontierRow).scopeJson = row.scopeJson)
      (k := s) hs old.scopeFrontier
    rw [this, if_neg hs]

theorem headsAt_of_history (h : new.headHistory = old.headHistory) (cutoff : ℕ) :
    new.headsAt key cutoff = old.headsAt key cutoff := by
  simp only [headsAt, h]

theorem PublishedBy.mono {row : EntityVersionRow} {cutoff cutoff' : ℕ} (h : PublishedBy row cutoff)
    (hle : cutoff ≤ cutoff') : PublishedBy row cutoff' := by
  obtain ⟨hunit, cursor, hcursor, hle'⟩ := h
  exact ⟨hunit, cursor, hcursor, hle'.trans hle⟩

/-- A publication sets the heads of its entity only. -/
theorem Publishes.publishedHeads_eq {heads : List String} {causalToken : String}
    (h : Publishes old new key heads causalToken) (k : EntityKey) :
    new.publishedHeads k = if k = key then Table.sorted heads else old.publishedHeads k := by
  split
  · rename_i hk
    subst hk
    refine Table.sorted_eq_iff.mpr ?_
    simp only [h.heads_eq, List.filter_append, List.filter_filter, List.map_append]
    have hnone : old.heads.filter (fun a => decide (a.key = k) && decide (a.key ≠ k)) = [] := by
      simp
    have hall : ((Table.sorted heads).map fun version => (⟨k, version⟩ : EntityHeadRow)).filter
        (fun a => decide (a.key = k)) = (Table.sorted heads).map fun version => ⟨k, version⟩ := by
      simp
    rw [hnone, hall, List.map_nil, List.nil_append, List.map_map]
    simpa [Function.comp_def] using Table.sorted_perm heads
  · rename_i hk
    simp only [publishedHeads, h.heads_eq, List.filter_append, List.filter_filter]
    have hsame : old.heads.filter (fun a => decide (a.key = k) && decide (a.key ≠ key)) =
        old.heads.filter (fun a => decide (a.key = k)) := by
      refine List.filter_congr fun a _ => ?_
      by_cases ha : a.key = k <;> simp [ha, hk]
    have hnone : ((Table.sorted heads).map fun version => (⟨key, version⟩ : EntityHeadRow)).filter
        (fun a => decide (a.key = k)) = [] := by
      simp [Ne.symm hk]
    rw [hsame, hnone, List.append_nil]

namespace PublishedInv

theorem history_le (inv : PublishedInv db) {h : HeadHistoryRow} (hh : h ∈ db.headHistory) :
    h.cursor ≤ db.lastCursor :=
  (inv.history h hh).1.trans (inv.frontier _)

/-- The published tables did not change. -/
theorem of_same (inv : PublishedInv old)
    (hrows : ∀ r : EntityVersionRow, r.workUnitJson = none → (r ∈ new.versions ↔ r ∈ old.versions))
    (hheads : new.heads = old.heads) (hhistory : new.headHistory = old.headHistory)
    (hchanges : ∀ c ∈ new.changes, c ∈ old.changes) (hcursor : new.lastCursor = old.lastCursor)
    (hfrontier : new.scopeFrontier = old.scopeFrontier) : PublishedInv new := by
  have hscope := currentScopeCursor_congr hfrontier
  have hpublished : ∀ {key version}, old.IsPublished key version → new.IsPublished key version := by
    rintro key version ⟨r, hr, hkey, hversion, hunit⟩
    exact ⟨r, (hrows r hunit).mpr hr, hkey, hversion, hunit⟩
  refine ⟨?_, ?_, ?_, ?_, ?_, ?_⟩
  · simpa only [hscope, hcursor] using inv.frontier
  · intro r hr hunit
    rw [hscope]
    exact inv.published r ((hrows r hunit).mp hr) hunit
  · rw [hheads]
    exact inv.headKeys
  · intro key version
    simp only [hheads, headsAt, hhistory, hcursor]
    exact inv.newest key version
  · rw [hhistory]
    intro h hh
    rw [hscope]
    refine ⟨(inv.history h hh).1, fun version hversion => ?_⟩
    obtain ⟨r, hr, hkey, hname, hby⟩ := (inv.history h hh).2 version hversion
    exact ⟨r, (hrows r hby.1).mpr hr, hkey, hname, hby⟩
  · intro c hc
    obtain ⟨htoken, hversions⟩ := inv.changes c (hchanges c hc)
    exact ⟨hpublished htoken, fun version hversion => hpublished (hversions version hversion)⟩

/-- Heads of an entity were published. -/
theorem publishes (inv : PublishedInv old) {heads : List String} {causalToken : String}
    (h : Publishes old new key heads causalToken)
    (hrows : ∀ r ∈ old.versions, r.workUnitJson = none → r ∈ new.versions)
    (hlater : ∀ r ∈ new.versions, r.workUnitJson = none →
      r ∈ old.versions ∨ r.key = key ∧ r.publishedCursor = some (old.lastCursor + 1))
    (hheads : ∀ version ∈ heads, new.IsPublished key version)
    (htoken : new.IsPublished key causalToken) : PublishedInv new := by
  have hscope := currentScopeCursor_advance h.scopeFrontier_eq
  have hmono : ∀ scope, old.currentScopeCursor scope ≤ new.currentScopeCursor scope := by
    intro scope
    have := inv.frontier scope
    rw [hscope]
    split <;> omega
  have hlast : ∀ r ∈ old.headHistory, r.cursor < old.lastCursor + 1 :=
    fun r hr => Nat.lt_succ_of_le (inv.history_le hr)
  have hpublished : ∀ {key version}, old.IsPublished key version → new.IsPublished key version := by
    rintro key version ⟨r, hr, hkey, hversion, hunit⟩
    exact ⟨r, hrows r hr hunit, hkey, hversion, hunit⟩
  have hby : ∀ r ∈ new.versions, r.workUnitJson = none →
      PublishedBy r (new.currentScopeCursor r.key.scopeJson) := by
    intro r hr hunit
    rcases hlater r hr hunit with hold | ⟨hkey, hcursor⟩
    · exact (inv.published r hold hunit).mono (hmono _)
    · exact ⟨hunit, _, hcursor, by rw [hscope, hkey, if_pos rfl]⟩
  refine ⟨?_, hby, ?_, ?_, ?_, ?_⟩
  · intro scope
    have := inv.frontier scope
    rw [hscope, h.lastCursor_eq]
    split <;> omega
  · rw [h.heads_eq, List.nodup_append']
    refine ⟨inv.headKeys.filter _, (Table.sorted_nodup h.nodup).map fun a b heq => ?_, ?_⟩
    · injection heq
    · intro head hhead hhead'
      obtain ⟨version, -, rfl⟩ := List.mem_map.mp hhead'
      have := (List.mem_filter.mp hhead).2
      simp at this
  · intro k version
    rw [h.heads_eq, h.lastCursor_eq]
    simp only [List.mem_append, List.mem_filter, decide_eq_true_eq, List.mem_map, Table.mem_sorted,
      EntityHeadRow.mk.injEq]
    by_cases hk : k = key
    · subst hk
      have hself := headsAt_append_self h.headHistory_eq (Nat.le_refl _) hlast
      rw [hself]
      simp
    · have hcutoff : old.headsAt k (old.lastCursor + 1) = old.headsAt k old.lastCursor :=
        headsAt_congr fun r hr _ => iff_of_true (hlast r hr).le (inv.history_le hr)
      rw [headsAt_append_of_ne h.headHistory_eq (Ne.symm hk), hcutoff, ← inv.newest k version]
      simp [hk, Ne.symm hk]
  · intro row hrow
    rw [h.headHistory_eq] at hrow
    rcases List.mem_append.mp hrow with hrow | hrow
    · refine ⟨(inv.history row hrow).1.trans (hmono _), fun version hversion => ?_⟩
      obtain ⟨r, hr, hkey, hname, hrby⟩ := (inv.history row hrow).2 version hversion
      exact ⟨r, hrows r hr hrby.1, hkey, hname, hrby⟩
    · rw [List.mem_singleton.mp hrow]
      refine ⟨by rw [hscope, if_pos rfl], fun version hversion => ?_⟩
      obtain ⟨r, hr, hkey, hname, hunit⟩ := hheads version hversion
      refine ⟨r, hr, hkey, hname, ?_⟩
      have := hby r hr hunit
      rwa [hscope, hkey, if_pos rfl] at this
  · intro c hc
    obtain ⟨kind, eventMeta, recordedAt, hchanges⟩ := h.changes_eq
    rw [hchanges] at hc
    rcases List.mem_append.mp hc with hc | hc
    · obtain ⟨htoken', hversions⟩ := inv.changes c hc
      exact ⟨hpublished htoken', fun version hversion => hpublished (hversions version hversion)⟩
    · rw [List.mem_singleton.mp hc]
      exact ⟨htoken, hheads⟩

end PublishedInv

/-! ### Evolution -/

/-- A unit later: the same unit, no earlier in its life. -/
structure Evolves (u u' : WorkUnitRow) : Prop where
  identityJson : u'.identityJson = u.identityJson
  scopeJson : u'.scopeJson = u.scopeJson
  policyJson : u'.policyJson = u.policyJson
  expiresAtUnixMs : u'.expiresAtUnixMs = u.expiresAtUnixMs
  baselineCursor : u'.baselineCursor = u.baselineCursor
  state : u'.state = u.state ∨ u.state = .opened ∨ u.state = .closing ∧ u'.state ≠ .opened

theorem Evolves.refl (u : WorkUnitRow) : Evolves u u := ⟨rfl, rfl, rfl, rfl, rfl, Or.inl rfl⟩

theorem Evolves.trans {u u' u'' : WorkUnitRow} (h : Evolves u u') (h' : Evolves u' u'') :
    Evolves u u'' := by
  refine ⟨h'.1.trans h.1, h'.2.trans h.2, h'.3.trans h.3, h'.4.trans h.4, h'.5.trans h.5, ?_⟩
  rcases h.state with heq | hopen | ⟨hclosing, hne⟩
  · rw [← heq]
    exact h'.state
  · exact Or.inr (Or.inl hopen)
  · refine Or.inr (Or.inr ⟨hclosing, ?_⟩)
    rcases h'.state with heq | hopen | ⟨-, hne'⟩
    · rw [heq]
      exact hne
    · exact absurd hopen hne
    · exact hne'

/-- An expired unit stays expired, a committed one committed. -/
theorem Evolves.final {u u' : WorkUnitRow} (h : Evolves u u') (hdone : ¬ u.Live) :
    u'.state = u.state := by
  simp only [WorkUnitRow.Live, not_or] at hdone
  rcases h.state with heq | hopen | ⟨hclosing, -⟩
  · exact heq
  · exact absurd hopen hdone.1
  · exact absurd hclosing hdone.2

/-- How the tables evolve. What is published stays as it is and keeps its place, what is published
later has later cursors, heads that moved have a head that is newly published, and what is staged
stays staged until it is published or its unit expires. -/
structure Extends (old new : Db) : Prop where
  published : ∀ r ∈ old.versions, r.workUnitJson = none → r ∈ new.versions
  later : ∀ r ∈ new.versions, r.workUnitJson = none →
    r ∈ old.versions ∨ ∃ cursor, r.publishedCursor = some cursor ∧ old.lastCursor < cursor
  staged : ∀ r ∈ old.versions, ∀ unit, r.workUnitJson = some unit → r ∈ new.versions ∨
    (∃ cursor, publishedRow cursor r ∈ new.versions) ∨
    ∃ u ∈ new.workUnits, u.identityJson = unit ∧ u.state = .expired
  fields : ∀ r ∈ old.versions, r.workUnitJson = none →
    new.readCrdtFields r.key r.version = old.readCrdtFields r.key r.version
  moves : ∀ key, new.publishedHeads key = old.publishedHeads key ∨
    ∃ version ∈ new.publishedHeads key, ¬ old.IsPublished key version
  lastCursor : old.lastCursor ≤ new.lastCursor
  headsAt : ∀ key cutoff, cutoff ≤ old.lastCursor →
    new.headsAt key cutoff = old.headsAt key cutoff
  frontier : ∀ scope, old.currentScopeCursor scope ≤ new.currentScopeCursor scope
  units : ∀ u ∈ old.workUnits, ∃ u' ∈ new.workUnits, Evolves u u'

namespace Extends

theorem refl (db : Db) : Extends db db :=
  ⟨fun _ hr _ => hr, fun _ hr _ => Or.inl hr, fun _ hr _ _ => Or.inl hr, fun _ _ _ => rfl,
    fun _ => Or.inl rfl, le_rfl, fun _ _ _ => rfl, fun _ => le_rfl,
    fun u hu => ⟨u, hu, Evolves.refl u⟩⟩

theorem isPublished (h : Extends old new) {version : String} (hold : old.IsPublished key version) :
    new.IsPublished key version := by
  obtain ⟨r, hr, hkey, hversion, hunit⟩ := hold
  exact ⟨r, h.published r hr hunit, hkey, hversion, hunit⟩

theorem trans {mid : Db} (h : Extends old mid) (h' : Extends mid new) : Extends old new := by
  refine ⟨fun r hr hunit => h'.published r (h.published r hr hunit) hunit, ?_, ?_, ?_, ?_,
    h.lastCursor.trans h'.lastCursor, ?_, fun scope => (h.frontier scope).trans (h'.frontier scope),
    ?_⟩
  · intro r hr hunit
    rcases h'.later r hr hunit with hmid | ⟨cursor, hcursor, hlt⟩
    · exact h.later r hmid hunit
    · exact Or.inr ⟨cursor, hcursor, h.lastCursor.trans_lt hlt⟩
  · intro r hr unit hunit
    rcases h.staged r hr unit hunit with hmid | ⟨cursor, hmid⟩ | ⟨u, hu, hid, hstate⟩
    · exact h'.staged r hmid unit hunit
    · exact Or.inr (Or.inl ⟨cursor, h'.published _ hmid rfl⟩)
    · obtain ⟨u', hu', hev⟩ := h'.units u hu
      refine Or.inr (Or.inr ⟨u', hu', hev.identityJson.trans hid, ?_⟩)
      rw [hev.final (by simp [WorkUnitRow.Live, hstate]), hstate]
  · intro r hr hunit
    rw [h'.fields r (h.published r hr hunit) hunit, h.fields r hr hunit]
  · intro key
    rcases h'.moves key with heq | ⟨version, hversion, hnot⟩
    · rw [heq]
      exact h.moves key
    · exact Or.inr ⟨version, hversion, fun hold => hnot (h.isPublished hold)⟩
  · intro key cutoff hcutoff
    rw [h'.headsAt key cutoff (hcutoff.trans h.lastCursor), h.headsAt key cutoff hcutoff]
  · intro u hu
    obtain ⟨u', hu', hev⟩ := h.units u hu
    obtain ⟨u'', hu'', hev'⟩ := h'.units u' hu'
    exact ⟨u'', hu'', hev.trans hev'⟩

/-- Nothing was published. -/
theorem of_same
    (hrows : ∀ r : EntityVersionRow, r.workUnitJson = none → (r ∈ new.versions ↔ r ∈ old.versions))
    (hstaged : ∀ r ∈ old.versions, ∀ unit, r.workUnitJson = some unit → r ∈ new.versions ∨
      ∃ u ∈ new.workUnits, u.identityJson = unit ∧ u.state = .expired)
    (hfields : ∀ r ∈ old.versions, r.workUnitJson = none →
      new.readCrdtFields r.key r.version = old.readCrdtFields r.key r.version)
    (hheads : new.heads = old.heads)
    (hhistory : new.headHistory = old.headHistory) (hcursor : new.lastCursor = old.lastCursor)
    (hfrontier : new.scopeFrontier = old.scopeFrontier)
    (hunits : ∀ u ∈ old.workUnits, ∃ u' ∈ new.workUnits, Evolves u u') : Extends old new := by
  refine ⟨fun r hr hunit => (hrows r hunit).mpr hr, fun r hr hunit => Or.inl ((hrows r hunit).mp hr),
    fun r hr unit hunit => ?_, hfields, fun key => Or.inl ?_, hcursor.ge, fun key cutoff _ => ?_,
    fun scope => ?_, hunits⟩
  · rcases hstaged r hr unit hunit with hkept | hexpired
    · exact Or.inl hkept
    · exact Or.inr (Or.inr hexpired)
  · simp only [publishedHeads, hheads]
  · exact headsAt_of_history hhistory cutoff
  · rw [currentScopeCursor_congr hfrontier]

/-- Heads of an entity were published, with rows that were staged or are new. -/
theorem publishes (inv : PublishedInv old) {heads : List String} {causalToken : String}
    (h : Publishes old new key heads causalToken)
    (hrows : ∀ r ∈ old.versions, r.workUnitJson = none → r ∈ new.versions)
    (hlater : ∀ r ∈ new.versions, r.workUnitJson = none →
      r ∈ old.versions ∨ r.key = key ∧ r.publishedCursor = some (old.lastCursor + 1))
    (hstaged : ∀ r ∈ old.versions, ∀ unit, r.workUnitJson = some unit → r ∈ new.versions ∨
      ∃ cursor, publishedRow cursor r ∈ new.versions)
    (hfields : ∀ r ∈ old.versions, r.workUnitJson = none →
      new.readCrdtFields r.key r.version = old.readCrdtFields r.key r.version)
    (hnew : ∃ version ∈ heads, ¬ old.IsPublished key version)
    (hunits : new.workUnits = old.workUnits) : Extends old new := by
  refine ⟨hrows, fun r hr hunit => ?_, fun r hr unit hunit => ?_, hfields, fun k => ?_, ?_,
    fun k cutoff hcutoff => ?_, fun scope => ?_, fun u hu => ⟨u, hunits ▸ hu, Evolves.refl u⟩⟩
  · rcases hlater r hr hunit with hold | ⟨-, hcursor⟩
    · exact Or.inl hold
    · exact Or.inr ⟨_, hcursor, Nat.lt_succ_self _⟩
  · rcases hstaged r hr unit hunit with hkept | hpublished
    · exact Or.inl hkept
    · exact Or.inr (Or.inl hpublished)
  · rw [h.publishedHeads_eq]
    split
    · rename_i hk
      subst hk
      obtain ⟨version, hversion, hnot⟩ := hnew
      exact Or.inr ⟨version, Table.mem_sorted.mpr hversion, hnot⟩
    · exact Or.inl rfl
  · rw [h.lastCursor_eq]
    omega
  · exact headsAt_append_of_gt h.headHistory_eq (Nat.lt_succ_of_le hcutoff)
  · have := inv.frontier scope
    rw [currentScopeCursor_advance h.scopeFrontier_eq]
    split <;> omega

end Extends

/-! ### Baselines -/

namespace BaselineInv

theorem cutoff_le (inv : BaselineInv db) (hpublished : PublishedInv db) {u : WorkUnitRow}
    (hu : u ∈ db.workUnits) : u.baselineCursor ≤ db.lastCursor :=
  (inv.cutoff u hu).trans (hpublished.frontier _)

/-- What was published up to a unit's cutoff does not change. -/
theorem of_extends (inv : BaselineInv old) (hpublished : PublishedInv old) (hext : Extends old new)
    (hunits : ∀ u' ∈ new.workUnits, ∃ u ∈ old.workUnits, Evolves u u')
    (hfrom : ∀ e' ∈ new.unitEntities, ∃ e ∈ old.unitEntities, e.workUnitJson = e'.workUnitJson ∧
      e.key = e'.key)
    (hto : ∀ e ∈ old.unitEntities, ∃ e' ∈ new.unitEntities, e'.workUnitJson = e.workUnitJson ∧
      e'.key = e.key)
    (hbase : new.unitBaseVersions = old.unitBaseVersions) : BaselineInv new := by
  refine ⟨?_, ?_, ?_, ?_⟩
  · intro u' hu'
    obtain ⟨u, hu, hev⟩ := hunits u' hu'
    rw [hev.baselineCursor, hev.scopeJson]
    exact (inv.cutoff u hu).trans (hext.frontier _)
  · intro e' he' u' hu' hid version isHead
    obtain ⟨e, he, heid, hekey⟩ := hfrom e' he'
    obtain ⟨u, hu, hev⟩ := hunits u' hu'
    have hcutoff := inv.cutoff_le hpublished hu
    rw [hbase, ← heid, ← hekey, hev.baselineCursor, hext.headsAt _ _ hcutoff,
      inv.base e he u hu ((hev.identityJson.symm.trans hid).trans heid.symm) version isHead]
    refine and_congr_left fun _ => ⟨?_, ?_⟩
    · rintro ⟨r, hr, hkey, hversion, hby⟩
      exact ⟨r, hext.published r hr hby.1, hkey, hversion, hby⟩
    · rintro ⟨r, hr, hkey, hversion, hby⟩
      refine ⟨r, (hext.later r hr hby.1).resolve_right ?_, hkey, hversion, hby⟩
      rintro ⟨cursor, hcursor, hlt⟩
      obtain ⟨-, cursor', hcursor', hle⟩ := hby
      rw [hcursor, Option.some.injEq] at hcursor'
      omega
  · rw [hbase]
    intro b hb
    obtain ⟨e, he, hid, hkey⟩ := inv.entities b hb
    obtain ⟨e', he', hid', hkey'⟩ := hto e he
    exact ⟨e', he', hid'.trans hid, hkey'.trans hkey⟩
  · rw [hbase]
    exact inv.keys

/-- A new unit has the frontier of its scope as its cutoff, and no baseline yet. -/
theorem openUnit (inv : BaselineInv old) (hstaging : StagingInv old) {unit : WorkUnitRow}
    (hnew : old.workUnit? unit.identityJson = none)
    (hcutoff : unit.baselineCursor = old.currentScopeCursor unit.scopeJson)
    (hversions : new.versions = old.versions) (hhistory : new.headHistory = old.headHistory)
    (hfrontier : new.scopeFrontier = old.scopeFrontier)
    (hunits : new.workUnits = old.workUnits ++ [unit])
    (hentities : new.unitEntities = old.unitEntities)
    (hbase : new.unitBaseVersions = old.unitBaseVersions) : BaselineInv new := by
  refine ⟨?_, ?_, ?_, ?_⟩
  · intro u hu
    rw [currentScopeCursor_congr hfrontier]
    rw [hunits] at hu
    rcases List.mem_append.mp hu with hu | hu
    · exact inv.cutoff u hu
    · rw [List.mem_singleton.mp hu]
      exact hcutoff.le
  · rw [hentities, hunits]
    intro e he u hu hid version isHead
    rcases List.mem_append.mp hu with hu | hu
    · rw [hbase, hversions, headsAt_of_history hhistory]
      exact inv.base e he u hu hid version isHead
    · obtain ⟨u', hu', hid', -⟩ := hstaging.entityUnits e he
      rw [List.mem_singleton.mp hu] at hid
      have := List.find?_eq_none.mp hnew u' hu'
      simp [hid'.trans hid.symm] at this
  · simpa only [hbase, hentities] using inv.entities
  · simpa only [hbase] using inv.keys

theorem mem_baselineRows (hstaging : StagingInv db) (unit : String) {version : String} {cutoff : ℕ}
    {isHead : Bool} : ⟨unit, key, version, isHead⟩ ∈ db.baselineRows unit key cutoff ↔
      (∃ r ∈ db.versions, r.key = key ∧ r.version = version ∧ PublishedBy r cutoff) ∧
        isHead = decide (version ∈ db.headsAt key cutoff) := by
  simp only [baselineRows, List.mem_map, List.mem_filter, decide_eq_true_eq,
    WorkUnitBaseVersionRow.mk.injEq, true_and]
  constructor
  · rintro ⟨r, ⟨hr, hkey, hcursor⟩, hversion, hhead⟩
    rw [Option.any_eq_true] at hcursor
    obtain ⟨cursor, hcursor, hle⟩ := hcursor
    refine ⟨⟨r, hr, hkey, hversion, ?_, cursor, hcursor, by simpa using hle⟩, ?_⟩
    · cases hunit : r.workUnitJson with
      | none => rfl
      | some id =>
        have := (hstaging.staged r hr id hunit).1
        rw [hcursor] at this
        cases this
    · rw [← hhead, hversion]
  · rintro ⟨⟨r, hr, hkey, hversion, -, cursor, hcursor, hle⟩, hhead⟩
    refine ⟨r, ⟨hr, hkey, ?_⟩, hversion, by rw [hhead, hversion]⟩
    rw [hcursor]
    simpa using hle

/-- The entity is captured. -/
theorem capture (inv : BaselineInv old) (hstaging : StagingInv old) {unit : WorkUnitRow}
    {e : WorkUnitEntityRow} (hunit : unit ∈ old.workUnits)
    (hid : e.workUnitJson = unit.identityJson)
    (hnew : old.unitEntity? e.workUnitJson e.key = none)
    (hversions : new.versions = old.versions) (hhistory : new.headHistory = old.headHistory)
    (hfrontier : new.scopeFrontier = old.scopeFrontier) (hunits : new.workUnits = old.workUnits)
    (hentities : new.unitEntities = old.unitEntities ++ [e])
    (hbase : new.unitBaseVersions = old.unitBaseVersions ++
      old.baselineRows e.workUnitJson e.key unit.baselineCursor) : BaselineInv new := by
  have hfresh : ∀ e' ∈ old.unitEntities, ¬ (e'.workUnitJson = e.workUnitJson ∧ e'.key = e.key) := by
    intro e' he' heq
    have := List.find?_eq_none.mp hnew e' he'
    simp [heq] at this
  have hrow : ∀ b ∈ old.baselineRows e.workUnitJson e.key unit.baselineCursor,
      b.workUnitJson = e.workUnitJson ∧ b.key = e.key := by
    intro b hb
    obtain ⟨r, -, rfl⟩ := List.mem_map.mp hb
    exact ⟨rfl, rfl⟩
  refine ⟨?_, ?_, ?_, ?_⟩
  · rw [hunits]
    intro u hu
    rw [currentScopeCursor_congr hfrontier]
    exact inv.cutoff u hu
  · rw [hentities, hunits]
    intro e' he' u hu huid version isHead
    rw [hbase, List.mem_append, hversions, headsAt_of_history hhistory]
    rcases List.mem_append.mp he' with he' | he'
    · rw [← inv.base e' he' u hu huid version isHead]
      refine or_iff_left fun hmem => ?_
      obtain ⟨hidEq, hkeyEq⟩ := hrow _ hmem
      exact hfresh e' he' ⟨hidEq, hkeyEq⟩
    · obtain rfl := List.mem_singleton.mp he'
      rw [hstaging.unit_eq hu hunit (huid.trans hid),
        ← mem_baselineRows hstaging e'.workUnitJson]
      refine or_iff_right fun hmem => ?_
      obtain ⟨e'', he'', heq⟩ := inv.entities _ hmem
      exact hfresh e'' he'' heq
  · rw [hbase, hentities]
    intro b hb
    rcases List.mem_append.mp hb with hb | hb
    · obtain ⟨e', he', heq⟩ := inv.entities b hb
      exact ⟨e', List.mem_append_left _ he', heq⟩
    · obtain ⟨hidEq, hkeyEq⟩ := hrow b hb
      exact ⟨e, by simp, hidEq.symm, hkeyEq.symm⟩
  · rw [hbase, List.nodup_append']
    refine ⟨inv.keys, ?_, ?_⟩
    · refine List.Nodup.map_on ?_ ((List.Nodup.of_map _ hstaging.versionKeys).filter _)
      intro r hr r' hr' heq
      simp only [List.mem_filter, decide_eq_true_eq] at hr hr'
      injection heq with _ _ hversion
      exact hstaging.versionKeys.eq hr.1 hr'.1 (hr.2.1.trans hr'.2.1.symm) hversion
    · intro b hb hb'
      obtain ⟨e', he', hidEq, hkeyEq⟩ := inv.entities b hb
      obtain ⟨hidEq', hkeyEq'⟩ := hrow b hb'
      exact hfresh e' he' ⟨hidEq.trans hidEq', hkeyEq.trans hkeyEq'⟩

end BaselineInv

end Db

end Patchouli
