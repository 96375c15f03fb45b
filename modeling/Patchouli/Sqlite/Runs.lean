import Patchouli.Sqlite.Invariant

/-!
# Every effect keeps the invariant

The publication of a unit is a loop over its entities. Each turn publishes one entity and keeps
the invariants that do not speak of the unit's end; after the loop nothing of the unit is staged
any more, and the unit can be marked committed.

## Main definitions

* `Db.UnitPublished` — what the publication of a unit leaves

## Main results

* `Db.finishWorkUnitPublication_spec` — the publication of a unit
* `Effect.keeps`, `Effects.keeps` — effects keep the invariant and extend the tables
-/

namespace Patchouli

namespace Db

variable {A : Automerge} {K : Known} {db old new : Db}
  {key : EntityKey}

/-! ### Records -/

namespace IdempotencyInv

/-- Records are only lost, and a unit that keeps some stays live. -/
theorem of_sublist (inv : IdempotencyInv old)
    (hunits : ∀ r ∈ new.unitIdempotency, ∀ u ∈ old.workUnits, u.identityJson = r.workUnitJson →
      u.Live → ∃ u' ∈ new.workUnits, u'.identityJson = r.workUnitJson ∧ u'.Live)
    (hrecords : new.idempotency.Sublist old.idempotency)
    (hunitRecords : new.unitIdempotency.Sublist old.unitIdempotency) : IdempotencyInv new := by
  refine ⟨fun r hr => ?_, inv.recordKeys.sublist (hrecords.map _),
    inv.unitRecordKeys.sublist (hunitRecords.map _),
    fun r hr s hs => inv.disjoint r (hrecords.subset hr) s (hunitRecords.subset hs)⟩
  obtain ⟨u, hu, hid, hlive⟩ := inv.units r (hunitRecords.subset hr)
  exact hunits r hr u hu hid hlive

theorem congr (inv : IdempotencyInv old)
    (hunits : ∀ u ∈ old.workUnits, u.Live →
      ∃ u' ∈ new.workUnits, u'.identityJson = u.identityJson ∧ u'.Live)
    (hrecords : new.idempotency = old.idempotency)
    (hunitRecords : new.unitIdempotency = old.unitIdempotency) : IdempotencyInv new :=
  inv.of_sublist (fun _ _ u hu hid hlive => hid ▸ hunits u hu hlive) (hrecords ▸ List.Sublist.refl _)
    (hunitRecords ▸ List.Sublist.refl _)

theorem unitIdempotency?_eq_none {identity : String} :
    db.unitIdempotency? identity = none ↔
      ∀ r ∈ db.unitIdempotency, r.record.identityJson ≠ identity := by
  simp [unitIdempotency?, List.find?_eq_none]

theorem idempotency?_eq_none {identity : String} :
    db.idempotency? identity = none ↔ ∀ r ∈ db.idempotency, r.identityJson ≠ identity := by
  simp [idempotency?, List.find?_eq_none]

/-- A record is published. -/
theorem record (inv : IdempotencyInv old) {record : IdempotencyRecord}
    (hnew : ∀ r ∈ old.idempotency, r.identityJson ≠ record.identityJson)
    (hfree : old.unitIdempotency? record.identityJson = none)
    (hunits : new.workUnits = old.workUnits)
    (hrecords : new.idempotency = old.idempotency ++ [record])
    (hunitRecords : new.unitIdempotency = old.unitIdempotency) : IdempotencyInv new := by
  refine ⟨by rw [hunits, hunitRecords]; exact inv.units, ?_,
    by rw [hunitRecords]; exact inv.unitRecordKeys, ?_⟩
  · rw [hrecords, List.map_append, List.nodup_append']
    refine ⟨inv.recordKeys, by simp, fun id hid hid' => ?_⟩
    obtain ⟨r, hr, rfl⟩ := List.mem_map.mp hid
    exact hnew r hr (by simpa using hid')
  · rw [hrecords, hunitRecords]
    intro r hr s hs
    rcases List.mem_append.mp hr with hr | hr
    · exact inv.disjoint r hr s hs
    · rw [List.mem_singleton.mp hr]
      exact (unitIdempotency?_eq_none.mp hfree s hs).symm

/-- A record is staged by a live unit. -/
theorem stageRecord (inv : IdempotencyInv old) {unit : WorkUnitRow} {record : IdempotencyRecord}
    (hunit : unit ∈ old.workUnits) (hlive : unit.Live)
    (hnew : ∀ r ∈ old.unitIdempotency, r.record.identityJson ≠ record.identityJson)
    (hfree : old.idempotency? record.identityJson = none)
    (hunits : new.workUnits = old.workUnits) (hrecords : new.idempotency = old.idempotency)
    (hunitRecords : new.unitIdempotency = old.unitIdempotency ++ [⟨unit.identityJson, record⟩]) :
    IdempotencyInv new := by
  refine ⟨?_, by rw [hrecords]; exact inv.recordKeys, ?_, ?_⟩
  · rw [hunits, hunitRecords]
    intro r hr
    rcases List.mem_append.mp hr with hr | hr
    · exact inv.units r hr
    · rw [List.mem_singleton.mp hr]
      exact ⟨unit, hunit, rfl, hlive⟩
  · rw [hunitRecords, List.map_append, List.nodup_append']
    refine ⟨inv.unitRecordKeys, by simp, fun id hid hid' => ?_⟩
    obtain ⟨r, hr, rfl⟩ := List.mem_map.mp hid
    exact hnew r hr (by simpa using hid')
  · rw [hrecords, hunitRecords]
    intro r hr s hs
    rcases List.mem_append.mp hs with hs | hs
    · exact inv.disjoint r hr s hs
    · rw [List.mem_singleton.mp hs]
      exact idempotency?_eq_none.mp hfree r hr

/-- The records of a unit are published. -/
theorem publishUnit (inv : IdempotencyInv old) {unit : String} {recordedAt : ℕ}
    (hfree : ∀ r ∈ old.unitRecords unit recordedAt, ∀ row ∈ old.idempotency,
      row.identityJson ≠ r.identityJson)
    (hnodup : ((old.unitRecords unit recordedAt).map (·.identityJson)).Nodup)
    (hunits : ∀ u ∈ old.workUnits, u.identityJson ≠ unit → u ∈ new.workUnits)
    (hrecords : new.idempotency = old.idempotency ++ old.unitRecords unit recordedAt)
    (hunitRecords : new.unitIdempotency =
      old.unitIdempotency.filter (·.workUnitJson ≠ unit)) : IdempotencyInv new := by
  have hkept : ∀ s ∈ new.unitIdempotency, s ∈ old.unitIdempotency ∧ s.workUnitJson ≠ unit := by
    intro s hs
    rw [hunitRecords, List.mem_filter, decide_eq_true_eq] at hs
    exact hs
  refine ⟨?_, ?_, ?_, ?_⟩
  · intro r hr
    obtain ⟨hr, hne⟩ := hkept r hr
    obtain ⟨u, hu, hid, hlive⟩ := inv.units r hr
    exact ⟨u, hunits u hu (hid ▸ hne), hid, hlive⟩
  · rw [hrecords, List.map_append, List.nodup_append']
    refine ⟨inv.recordKeys, hnodup, fun id hid hid' => ?_⟩
    obtain ⟨row, hrow, rfl⟩ := List.mem_map.mp hid
    obtain ⟨r, hr, heq⟩ := List.mem_map.mp hid'
    exact hfree r hr row hrow heq.symm
  · rw [hunitRecords]
    exact inv.unitRecordKeys.sublist ((List.filter_sublist).map _)
  · rw [hrecords]
    intro r hr s hs
    obtain ⟨hs, hne⟩ := hkept s hs
    rcases List.mem_append.mp hr with hr | hr
    · exact inv.disjoint r hr s hs
    · obtain ⟨row, hrow, rfl⟩ := List.mem_map.mp hr
      simp only [List.mem_filter, decide_eq_true_eq] at hrow
      intro heq
      have := Table.eq_of_key_eq (fun row : WorkUnitIdempotencyRow => row.record.identityJson)
        inv.unitRecordKeys hrow.1 hs heq
      exact hne (this ▸ hrow.2.1)

end IdempotencyInv

/-! ### CRDT tables -/

namespace CrdtInv

theorem congr (inv : CrdtInv A old)
    (hrows : ∀ k v, old.HasVersion k v → new.HasVersion k v)
    (hchanges : new.crdtChanges = old.crdtChanges) (hparents : new.crdtParents = old.crdtParents)
    (hheads : new.crdtHeads = old.crdtHeads) : CrdtInv A new := by
  refine ⟨?_, ?_, ?_⟩
  · simpa only [hparents, HasChange, hchanges] using inv.edges
  · simpa only [hchanges, hparents] using inv.determined
  · rw [hheads]
    intro h hh
    refine ⟨hrows _ _ (inv.heads h hh).1, ?_⟩
    simpa only [HasChange, hchanges] using (inv.heads h hh).2

/-- What no version needs any more is collected. -/
theorem collect (inv : CrdtInv A db) : CrdtInv A db.collectChanges := by
  have hstored : ∀ hash, db.HasChange hash → hash ∈ db.reachableChanges →
      db.collectChanges.HasChange hash := by
    rintro hash ⟨row, hrow, rfl⟩ hreach
    exact ⟨row, by simp [collectChanges, hrow, hreach], rfl⟩
  refine ⟨?_, ?_, ?_⟩
  · intro e he
    simp only [collectChanges, List.mem_filter, decide_eq_true_eq] at he
    obtain ⟨he, hleft, hright⟩ := he
    exact ⟨hstored _ (inv.edges e he).1 hleft, hstored _ (inv.edges e he).2 hright⟩
  · intro row hrow
    simp only [collectChanges, List.mem_filter, decide_eq_true_eq] at hrow
    obtain ⟨deps, hdecode, hmem⟩ := inv.determined row hrow.1
    refine ⟨deps, hdecode, fun p => ?_⟩
    rw [← hmem p]
    simp only [collectChanges, List.mem_filter, decide_eq_true_eq]
    exact ⟨fun h => h.1, fun h => ⟨h, hrow.2, Closure.closed_reach _ h hrow.2⟩⟩
  · intro h hh
    refine ⟨(inv.heads h hh).1, hstored _ (inv.heads h hh).2 ?_⟩
    exact Closure.subset_reach (List.mem_map_of_mem hh)

/-- Versions go, with their heads. -/
theorem shrink (inv : CrdtInv A old) {versions : List EntityVersionRow}
    {heads : List EntityCrdtHeadRow}
    (hheads : ∀ h ∈ heads, h ∈ old.crdtHeads ∧ ∃ row ∈ versions, row.key = h.key ∧
      row.version = h.version) (hversions : new.versions = versions)
    (hchanges : new.crdtChanges = old.crdtChanges) (hparents : new.crdtParents = old.crdtParents)
    (hcrdtHeads : new.crdtHeads = heads) : CrdtInv A new := by
  refine ⟨?_, ?_, ?_⟩
  · simpa only [hparents, HasChange, hchanges] using inv.edges
  · simpa only [hchanges, hparents] using inv.determined
  · rw [hcrdtHeads]
    intro h hh
    obtain ⟨hold, hrow⟩ := hheads h hh
    refine ⟨?_, ?_⟩
    · simpa only [HasVersion, hversions] using hrow
    · simpa only [HasChange, hchanges] using (inv.heads h hold).2

end CrdtInv

theorem readCrdtFields_congr (hchanges : new.crdtChanges = old.crdtChanges)
    (hparents : new.crdtParents = old.crdtParents) {version : String}
    (hheads : new.crdtHeads.filter (fun row => row.key = key ∧ row.version = version) =
      old.crdtHeads.filter (fun row => row.key = key ∧ row.version = version)) :
    new.readCrdtFields key version = old.readCrdtFields key version := by
  have hfield : ∀ path, new.crdtFieldHeads key version path =
      old.crdtFieldHeads key version path := by
    intro path
    have hsplit : ∀ rows : List EntityCrdtHeadRow,
        rows.filter (fun row => row.key = key ∧ row.version = version ∧ row.fieldPath = path) =
          (rows.filter fun row => row.key = key ∧ row.version = version).filter
            (·.fieldPath = path) := by
      intro rows
      rw [List.filter_filter]
      refine List.filter_congr fun row _ => ?_
      simp only [Bool.decide_and]
      cases decide (row.key = key) <;> cases decide (row.version = version) <;> simp
    simp only [crdtFieldHeads, hsplit, hheads]
  have hpaths : new.crdtFieldPaths key version = old.crdtFieldPaths key version := by
    simp only [crdtFieldPaths, hheads]
  simp only [readCrdtFields, hpaths, hfield, changesFrom, changeParents, hchanges, hparents]

/-! ### Heads with something of their own -/

namespace HeadsStaged

/-- A unit that is still live has its heads and what it staged. -/
theorem of_kept (h : HeadsStaged old)
    (hunits : ∀ u' ∈ new.workUnits, u'.Live →
      ∃ u ∈ old.workUnits, u.identityJson = u'.identityJson ∧ u.Live)
    (hheads : ∀ u' ∈ new.workUnits, u'.Live → ∀ head : WorkUnitHeadRow,
      head.workUnitJson = u'.identityJson → (head ∈ new.unitHeads ↔ head ∈ old.unitHeads))
    (hstaged : ∀ u' ∈ new.workUnits, u'.Live → ∀ key version,
      old.StagedBy u'.identityJson key version → new.StagedBy u'.identityJson key version) :
    HeadsStaged new := by
  intro u' hu' hlive' head hhead hid
  obtain ⟨u, hu, huid, hlive⟩ := hunits u' hu' hlive'
  obtain ⟨version, hmem, hown⟩ :=
    h u hu hlive head ((hheads u' hu' hlive' head hid).mp hhead) (hid.trans huid.symm)
  rw [huid] at hmem hown
  exact ⟨version, (hheads u' hu' hlive' _ rfl).mpr hmem, hstaged u' hu' hlive' _ _ hown⟩

/-- A unit stages something of its own. -/
theorem addStaged (h : HeadsStaged old) {unit : String} {heads : List String}
    {versions : List EntityVersionRow} (hunits : new.workUnits = old.workUnits)
    (hversions : new.versions = old.versions ++ versions)
    (hheads : new.unitHeads =
      (old.unitHeads.filter fun head => ¬ (head.workUnitJson = unit ∧ head.key = key)) ++
        (Table.sorted heads).map fun version => ⟨unit, key, version⟩)
    (hnew : ∃ version ∈ heads, new.StagedBy unit key version) : HeadsStaged new := by
  have hstaged : ∀ id k version, old.StagedBy id k version → new.StagedBy id k version := by
    rintro id k version ⟨r, hr, hrest⟩
    exact ⟨r, hversions ▸ List.mem_append_left _ hr, hrest⟩
  intro u hu hlive head hhead hid
  rw [hunits] at hu
  rw [hheads] at hhead ⊢
  by_cases hsame : u.identityJson = unit ∧ head.key = key
  · obtain ⟨version, hversion, hown⟩ := hnew
    refine ⟨version, StagingInv.mem_replaced.mpr (Or.inr ⟨hsame.1, hsame.2, hversion⟩), ?_⟩
    rw [hsame.1, hsame.2]
    exact hown
  · obtain ⟨hold, -⟩ := (StagingInv.mem_replaced.mp hhead).resolve_right fun hnow =>
      hsame ⟨hid.symm.trans hnow.1, hnow.2.1⟩
    obtain ⟨version, hmem, hown⟩ := h u hu hlive head hold hid
    exact ⟨version, StagingInv.mem_replaced.mpr (Or.inl ⟨hmem, hsame⟩), hstaged _ _ _ hown⟩

end HeadsStaged

/-! ### Publishing a unit -/

/-- What the publication of some entities of a unit leaves: their heads and the unit's versions of
them are published, one change for each, and nothing else happened. -/
structure UnitPublished (unit : String) (keys : List EntityKey) (old new : Db) : Prop where
  grows : Extends old new
  workUnits_eq : new.workUnits = old.workUnits
  unitEntities_eq : new.unitEntities = old.unitEntities
  unitHeads_eq : new.unitHeads = old.unitHeads
  unitBaseVersions_eq : new.unitBaseVersions = old.unitBaseVersions
  idempotency_eq : new.idempotency = old.idempotency
  unitIdempotency_eq : new.unitIdempotency = old.unitIdempotency
  crdtChanges_eq : new.crdtChanges = old.crdtChanges
  crdtParents_eq : new.crdtParents = old.crdtParents
  crdtHeads_eq : new.crdtHeads = old.crdtHeads
  others : ∀ r ∈ old.versions, ¬ (r.workUnitJson = some unit ∧ r.key ∈ keys) → r ∈ new.versions
  published : ∀ r ∈ old.versions, r.workUnitJson = some unit → r.key ∈ keys →
    ∃ cursor, publishedRow cursor r ∈ new.versions
  from_old : ∀ r ∈ new.versions, (r ∈ old.versions ∧ ¬ (r.workUnitJson = some unit ∧ r.key ∈ keys))
    ∨ ∃ r' ∈ old.versions, r'.workUnitJson = some unit ∧ r'.key ∈ keys ∧
      ∃ cursor, r = publishedRow cursor r'
  heads : ∀ key, new.publishedHeads key =
    if key ∈ keys then old.directWorkUnitHeads unit key else old.publishedHeads key
  changes : ∃ added, new.changes = old.changes ++ added ∧
    added.map (fun c => (c.key, c.headVersionsJson)) =
      keys.map fun key => (key, old.directWorkUnitHeads unit key)

namespace UnitPublished

variable {unit : String} {keys : List EntityKey}

theorem refl (unit : String) (db : Db) : UnitPublished unit [] db db := by
  refine ⟨Extends.refl db, rfl, rfl, rfl, rfl, rfl, rfl, rfl, rfl, rfl, fun r hr _ => hr,
    fun _ _ _ h => absurd h List.not_mem_nil,
    fun r hr => Or.inl ⟨hr, fun h => absurd h.2 List.not_mem_nil⟩, fun key => by simp,
    [], by simp⟩

theorem directWorkUnitHeads_eq (h : UnitPublished unit keys old new) (id : String)
    (k : EntityKey) : new.directWorkUnitHeads id k = old.directWorkUnitHeads id k := by
  simp only [directWorkUnitHeads, h.unitHeads_eq]

/-- One entity, then the others. -/
theorem cons {mid : Db} (hnew : key ∉ keys) (h : UnitPublished unit [key] old mid)
    (h' : UnitPublished unit keys mid new) : UnitPublished unit (key :: keys) old new := by
  refine ⟨h.grows.trans h'.grows, h'.workUnits_eq.trans h.workUnits_eq,
    h'.unitEntities_eq.trans h.unitEntities_eq, h'.unitHeads_eq.trans h.unitHeads_eq,
    h'.unitBaseVersions_eq.trans h.unitBaseVersions_eq, h'.idempotency_eq.trans h.idempotency_eq,
    h'.unitIdempotency_eq.trans h.unitIdempotency_eq, h'.crdtChanges_eq.trans h.crdtChanges_eq,
    h'.crdtParents_eq.trans h.crdtParents_eq, h'.crdtHeads_eq.trans h.crdtHeads_eq, ?_, ?_, ?_, ?_,
    ?_⟩
  · intro r hr hnot
    have hmid := h.others r hr fun hmem => hnot ⟨hmem.1, by simp [List.mem_singleton.mp hmem.2]⟩
    exact h'.others r hmid fun hmem => hnot ⟨hmem.1, List.mem_cons_of_mem _ hmem.2⟩
  · intro r hr hunit hkey
    rcases List.mem_cons.mp hkey with hkey | hkey
    · obtain ⟨cursor, hmid⟩ := h.published r hr hunit (List.mem_singleton.mpr hkey)
      exact ⟨cursor, h'.others _ hmid fun hmem => by cases hmem.1⟩
    · refine h'.published r (h.others r hr fun hmem => hnew ?_) hunit hkey
      exact List.mem_singleton.mp hmem.2 ▸ hkey
  · intro r hr
    rcases h'.from_old r hr with ⟨hmid, hnot⟩ | ⟨r', hmid, hunit, hkey, cursor, rfl⟩
    · rcases h.from_old r hmid with ⟨hold, hnot'⟩ | ⟨r', hold, hunit, hkey, cursor, rfl⟩
      · refine Or.inl ⟨hold, fun hmem => ?_⟩
        rcases List.mem_cons.mp hmem.2 with hkey | hkey
        · exact hnot' ⟨hmem.1, List.mem_singleton.mpr hkey⟩
        · exact hnot ⟨hmem.1, hkey⟩
      · exact Or.inr ⟨r', hold, hunit, by simp [List.mem_singleton.mp hkey], cursor, rfl⟩
    · rcases h.from_old r' hmid with ⟨hold, -⟩ | ⟨r'', -, -, -, cursor', rfl⟩
      · exact Or.inr ⟨r', hold, hunit, List.mem_cons_of_mem _ hkey, cursor, rfl⟩
      · cases hunit
  · intro k
    rw [h'.heads k, h.heads k, h.directWorkUnitHeads_eq]
    by_cases hk : k = key
    · subst hk
      simp [hnew]
    · by_cases hkeys : k ∈ keys <;> simp [hk, hkeys]
  · obtain ⟨added, heq, hadded⟩ := h.changes
    obtain ⟨added', heq', hadded'⟩ := h'.changes
    refine ⟨added ++ added', by rw [heq', heq, List.append_assoc], ?_⟩
    rw [List.map_append, hadded, hadded']
    simp only [h.directWorkUnitHeads_eq, List.map_cons, List.map_nil, List.cons_append,
      List.nil_append]

end UnitPublished

/-- What the publication of an entity needs of the tables, and keeps. -/
structure LoopInv (unit : String) (db : Db) : Prop where
  staging : StagingInv db
  published : PublishedInv db
  baseline : BaselineInv db
  live : ∃ u ∈ db.workUnits, u.identityJson = unit ∧ u.Live

/-- **One turn of the publication.** -/
theorem publishWorkUnitEntity_published {unit : String} {recordedAt : ℕ} (inv : LoopInv unit old)
    (hown : ∃ version ∈ old.directWorkUnitHeads unit key, old.StagedBy unit key version)
    (h : publishWorkUnitEntity unit recordedAt old key = .ok new) :
    LoopInv unit new ∧ UnitPublished unit [key] old new := by
  obtain ⟨causalToken, ⟨e, he, heid, hekey, hetoken⟩, ⟨heads, changes, lastCursor, headHistory,
    causalFrontier, scopeFrontier, sessionFrontier, hnew⟩, hpublishes, -⟩ :=
    publishWorkUnitEntity_spec h
  obtain ⟨u, hu, huid, hlive⟩ := inv.live
  have hversions : new.versions =
      old.versions.map (publishStaged unit key (old.lastCursor + 1)) := by rw [hnew]
  have hunits : new.workUnits = old.workUnits := by rw [hnew]
  have hentities : new.unitEntities = old.unitEntities := by rw [hnew]
  have hbase : new.unitBaseVersions = old.unitBaseVersions := by rw [hnew]
  have hstaging : StagingInv new :=
    inv.staging.publishEntity hversions hunits hentities (by rw [hnew])
  have hkept : ∀ r ∈ old.versions, ¬ (r.workUnitJson = some unit ∧ r.key = key) →
      r ∈ new.versions := by
    intro r hr hnot
    rw [hversions]
    refine List.mem_map.mpr ⟨r, hr, ?_⟩
    rw [publishStaged, if_neg hnot]
  have hmoved : ∀ r ∈ old.versions, r.workUnitJson = some unit → r.key = key →
      publishedRow (old.lastCursor + 1) r ∈ new.versions := by
    intro r hr hunit hkey
    rw [hversions]
    refine List.mem_map.mpr ⟨r, hr, ?_⟩
    rw [publishStaged, if_pos ⟨hunit, hkey⟩]
  have hfrom : ∀ r ∈ new.versions, (r ∈ old.versions ∧ ¬ (r.workUnitJson = some unit ∧ r.key = key))
      ∨ ∃ r' ∈ old.versions, r'.workUnitJson = some unit ∧ r'.key = key ∧
        r = publishedRow (old.lastCursor + 1) r' := by
    intro r hr
    rw [hversions] at hr
    obtain ⟨r', hr', rfl⟩ := List.mem_map.mp hr
    unfold publishStaged
    split
    · rename_i hmem
      exact Or.inr ⟨r', hr', hmem.1, hmem.2, rfl⟩
    · rename_i hnot
      exact Or.inl ⟨hr', hnot⟩
  have hpublishedRows : ∀ r ∈ old.versions, r.workUnitJson = none → r ∈ new.versions :=
    fun r hr hunit => hkept r hr fun hmem => by simp [hunit] at hmem
  have hlater : ∀ r ∈ new.versions, r.workUnitJson = none →
      r ∈ old.versions ∨ r.key = key ∧ r.publishedCursor = some (old.lastCursor + 1) := by
    intro r hr _
    rcases hfrom r hr with ⟨hold, -⟩ | ⟨r', -, -, hkey, rfl⟩
    · exact Or.inl hold
    · exact Or.inr ⟨hkey, rfl⟩
  have hpublished : ∀ version, (∃ r ∈ old.versions, r.key = key ∧ r.version = version ∧
      (r.workUnitJson = some unit ∨ r.workUnitJson = none)) → new.IsPublished key version := by
    rintro version ⟨r, hr, hkey, hversion, hunit | hunit⟩
    · exact ⟨_, hmoved r hr hunit hkey, hkey, hversion, rfl⟩
    · exact ⟨r, hpublishedRows r hr hunit, hkey, hversion, hunit⟩
  have hheads : ∀ version ∈ old.directWorkUnitHeads unit key, new.IsPublished key version :=
    fun version hversion =>
      hpublished version (inv.staging.headVersions _ (mem_directWorkUnitHeads.mp hversion))
  have htoken : new.IsPublished key causalToken := by
    have := inv.staging.tokens e he causalToken hetoken u hu (huid.trans heid.symm) hlive
    rw [heid, hekey] at this
    exact hpublished causalToken this
  have hgrows : Extends old new := by
    refine Extends.publishes inv.published hpublishes hpublishedRows hlater ?_ ?_ ?_ hunits
    · intro r hr id hid
      by_cases hmem : r.workUnitJson = some unit ∧ r.key = key
      · exact Or.inr ⟨_, hmoved r hr hmem.1 hmem.2⟩
      · exact Or.inl (hkept r hr hmem)
    · intro r _ _
      rw [hnew]
      rfl
    · obtain ⟨version, hversion, r, hr, hunit, hkey, hname⟩ := hown
      refine ⟨version, hversion, ?_⟩
      rintro ⟨r', hr', hkey', hname', hunit'⟩
      rw [inv.staging.versionKeys.eq hr' hr (hkey'.trans hkey.symm) (hname'.trans hname.symm),
        hunit] at hunit'
      cases hunit'
  have hpublishedInv : PublishedInv new :=
    inv.published.publishes hpublishes hpublishedRows hlater hheads htoken
  refine ⟨⟨hstaging, hpublishedInv, ?_, u, hunits ▸ hu, huid, hlive⟩, hgrows, hunits, hentities,
    by rw [hnew], hbase, by rw [hnew], by rw [hnew], by rw [hnew], by rw [hnew], by rw [hnew], ?_,
    ?_, ?_, ?_, ?_⟩
  · refine inv.baseline.of_extends inv.published hgrows ?_ ?_ ?_ hbase
    · exact fun u' hu' => ⟨u', hunits ▸ hu', Evolves.refl u'⟩
    · exact fun e' he' => ⟨e', hentities ▸ he', rfl, rfl⟩
    · exact fun e' he' => ⟨e', hentities ▸ he', rfl, rfl⟩
  · exact fun r hr hnot => hkept r hr fun hmem => hnot ⟨hmem.1, List.mem_singleton.mpr hmem.2⟩
  · exact fun r hr hunit hkey => ⟨_, hmoved r hr hunit (List.mem_singleton.mp hkey)⟩
  · intro r hr
    rcases hfrom r hr with ⟨hold, hnot⟩ | ⟨r', hold, hunit, hkey, rfl⟩
    · exact Or.inl ⟨hold, fun hmem => hnot ⟨hmem.1, List.mem_singleton.mp hmem.2⟩⟩
    · exact Or.inr ⟨r', hold, hunit, List.mem_singleton.mpr hkey, _, rfl⟩
  · intro k
    rw [hpublishes.publishedHeads_eq]
    simp only [List.mem_singleton]
    split
    · rename_i hk
      rw [hk]
      exact Table.sorted_sorted _
    · rfl
  · obtain ⟨kind, eventMeta, recordedAt', hchanges⟩ := hpublishes.changes_eq
    exact ⟨_, hchanges, by simp⟩

/-- **The loop of the publication.** -/
theorem foldlM_publishWorkUnitEntity {unit : String} {recordedAt : ℕ} {keys : List EntityKey}
    (hkeys : keys.Nodup) (inv : LoopInv unit old)
    (hown : ∀ key ∈ keys, ∃ version ∈ old.directWorkUnitHeads unit key,
      old.StagedBy unit key version)
    (h : keys.foldlM (publishWorkUnitEntity unit recordedAt) old = .ok new) :
    LoopInv unit new ∧ UnitPublished unit keys old new := by
  induction keys generalizing old with
  | nil =>
    simp only [List.foldlM_nil, Except.pure_eq_ok, Except.ok.injEq] at h
    subst h
    exact ⟨inv, UnitPublished.refl unit old⟩
  | cons key keys ih =>
    obtain ⟨hfresh, hkeys⟩ := List.nodup_cons.mp hkeys
    rw [List.forall_mem_cons] at hown
    obtain ⟨mid, hmid, hrest⟩ := Except.foldlM_cons_eq_ok.mp h
    obtain ⟨inv', hturn⟩ := publishWorkUnitEntity_published inv hown.1 hmid
    have hown' : ∀ key ∈ keys, ∃ version ∈ mid.directWorkUnitHeads unit key,
        mid.StagedBy unit key version := by
      intro k hk
      obtain ⟨version, hversion, r, hr, hunit, hkey, hname⟩ := hown.2 k hk
      refine ⟨version, hturn.directWorkUnitHeads_eq unit k ▸ hversion, r, ?_, hunit, hkey, hname⟩
      refine hturn.others r hr fun hmem => hfresh ?_
      rw [← List.mem_singleton.mp hmem.2, hkey]
      exact hk
    obtain ⟨inv'', hloop⟩ := ih hkeys inv' hown' hrest
    exact ⟨inv'', hturn.cons hfresh hloop⟩

/-! ### Effect by effect -/

theorem mem_workUnitMutatedEntities {unit : String} :
    key ∈ db.workUnitMutatedEntities unit ↔
      (∃ e ∈ db.unitEntities, e.workUnitJson = unit ∧ e.key = key) ∧ db.HasUnitHeads unit key := by
  simp only [workUnitMutatedEntities, List.mem_map, List.mem_insertionSort, List.mem_filter,
    decide_eq_true_eq]
  constructor
  · rintro ⟨e, ⟨he, hid, hhas⟩, rfl⟩
    exact ⟨⟨e, he, hid, rfl⟩, hhas⟩
  · rintro ⟨⟨e, he, hid, rfl⟩, hhas⟩
    exact ⟨e, ⟨he, hid, hhas⟩, rfl⟩

/-- What a unit stages is published entity by entity. -/
theorem StagingInv.mutated (inv : StagingInv db) {unit : String} {r : EntityVersionRow}
    (hr : r ∈ db.versions) (hunit : r.workUnitJson = some unit) :
    r.key ∈ db.workUnitMutatedEntities unit := by
  obtain ⟨-, -, h, hh, hid, hkey⟩ := inv.staged r hr unit hunit
  obtain ⟨e, he, heid, hekey⟩ := inv.headEntities h hh
  exact mem_workUnitMutatedEntities.mpr
    ⟨⟨e, he, heid.trans hid, hekey.trans hkey⟩, h, hh, hid, hkey⟩

theorem StagingInv.nodup_mutated (inv : StagingInv db) (unit : String) :
    (db.workUnitMutatedEntities unit).Nodup := by
  have hperm : ((db.unitEntities.filter fun row =>
      row.workUnitJson = unit ∧ db.HasUnitHeads unit row.key).map (·.key)).Nodup := by
    refine List.Nodup.map_on ?_ ((List.Nodup.of_map _ inv.entityKeys).filter _)
    intro e he e' he' hkey
    simp only [List.mem_filter, decide_eq_true_eq] at he he'
    exact Table.eq_of_key_eq (fun e : WorkUnitEntityRow => (e.workUnitJson, e.key))
      inv.entityKeys he.1 he'.1 (Prod.ext (he.2.1.trans he'.2.1.symm) hkey)
  exact ((List.perm_insertionSort _ _).map _).nodup_iff.mpr hperm

/-- **The publication of a unit**: all it staged is published, then the unit is committed. -/
theorem finishWorkUnitPublication_spec (inv : Inv A old) {unit : WorkUnitRow} {recordedAt : ℕ}
    (hunit : unit ∈ old.workUnits) (hlive : unit.Live)
    (h : old.finishWorkUnitPublication unit.identityJson recordedAt = .ok new) :
    ∃ mid, LoopInv unit.identityJson mid ∧
      UnitPublished unit.identityJson (old.workUnitMutatedEntities unit.identityJson) old mid ∧
      (∀ r ∈ mid.versions, r.workUnitJson ≠ some unit.identityJson) ∧
      (∀ r ∈ mid.unitRecords unit.identityJson recordedAt, ∀ row ∈ mid.idempotency,
        row.identityJson ≠ r.identityJson) ∧
      ((mid.unitRecords unit.identityJson recordedAt).map (·.identityJson)).Nodup ∧
      new = { mid with
        idempotency := mid.idempotency ++ mid.unitRecords unit.identityJson recordedAt
        unitIdempotency := mid.unitIdempotency.filter (·.workUnitJson ≠ unit.identityJson)
        workUnits := mid.workUnits.map fun row =>
          if row.identityJson = unit.identityJson then
            { row with state := .committed, closedAtUnixMs := some recordedAt }
          else row } := by
  obtain ⟨mid, hloop, h⟩ := Except.bind_eq_ok.mp h
  obtain ⟨next, hrecords, h⟩ := Except.bind_eq_ok.mp h
  simp only [Except.pure_eq_ok, Except.ok.injEq] at h
  subst h
  obtain ⟨rfl, hfree, hnodup⟩ := publishUnitIdempotency_spec hrecords
  have hown : ∀ key ∈ old.workUnitMutatedEntities unit.identityJson,
      ∃ version ∈ old.directWorkUnitHeads unit.identityJson key,
        old.StagedBy unit.identityJson key version := by
    intro key hkey
    obtain ⟨-, head, hhead, hid, rfl⟩ := mem_workUnitMutatedEntities.mp hkey
    obtain ⟨version, hmem, hstaged⟩ := inv.headsStaged unit hunit hlive head hhead hid
    exact ⟨version, mem_directWorkUnitHeads.mpr hmem, hstaged⟩
  obtain ⟨hinv, hpublished⟩ := foldlM_publishWorkUnitEntity
    (inv.staging.nodup_mutated unit.identityJson)
    ⟨inv.staging, inv.published, inv.baseline, unit, hunit, rfl, hlive⟩ hown hloop
  refine ⟨mid, hinv, hpublished, fun r hr hid => ?_, hfree, hnodup, rfl⟩
  rcases hpublished.from_old r hr with ⟨hold, hnot⟩ | ⟨r', -, -, -, cursor, rfl⟩
  · exact hnot ⟨hid, inv.staging.mutated hold hid⟩
  · cases hid

namespace Inv

/-- Bookkeeping: sessions, records, pruned changes. -/
theorem bookkeeping (inv : Inv A old) (hidempotency : IdempotencyInv new)
    (hchanges : ∀ c ∈ new.changes, c ∈ old.changes)
    (h : ∃ sessionFrontier changes changeRetention idempotency unitIdempotency,
      new = { old with
        sessionFrontier, changes, changeRetention, idempotency, unitIdempotency }) :
    Inv A new ∧ Extends old new := by
  obtain ⟨s, c, p, i, q, rfl⟩ := h
  refine ⟨⟨inv.staging.congr rfl rfl rfl rfl,
    inv.published.of_same (fun _ _ => Iff.rfl) rfl rfl hchanges rfl rfl, ?_, hidempotency,
    inv.crdt.congr (fun _ _ h => h) rfl rfl rfl, ?_⟩, ?_⟩
  · exact ⟨inv.baseline.cutoff, inv.baseline.base, inv.baseline.entities, inv.baseline.keys⟩
  · exact inv.headsStaged
  · exact Extends.of_same (fun _ _ => Iff.rfl) (fun r hr _ _ => Or.inl hr) (fun _ _ _ => rfl) rfl rfl
      rfl rfl fun u hu => ⟨u, hu, Evolves.refl u⟩

/-- Units change their states; one that ends has nothing staged and no records. -/
theorem setStates (inv : Inv A old) {states : WorkUnitRow → WorkUnitRow}
    (hevolves : ∀ u, Evolves u (states u)) (hback : ∀ u, (states u).Live → u.Live)
    (hkeeps : ∀ u ∈ old.workUnits, u.Live → (states u).Live ∨
      (∀ r ∈ old.versions, r.workUnitJson ≠ some u.identityJson) ∧
      ∀ r ∈ old.unitIdempotency, r.workUnitJson ≠ u.identityJson) :
    Inv A { old with workUnits := old.workUnits.map states } ∧
      Extends old { old with workUnits := old.workUnits.map states } := by
  have hunits : ∀ u ∈ old.workUnits, ∃ u' ∈ old.workUnits.map states, Evolves u u' :=
    fun u hu => ⟨states u, List.mem_map_of_mem hu, hevolves u⟩
  have hext : Extends old { old with workUnits := old.workUnits.map states } :=
    Extends.of_same (fun _ _ => Iff.rfl) (fun r hr _ _ => Or.inl hr) (fun _ _ _ => rfl) rfl rfl rfl
      rfl hunits
  refine ⟨⟨?_, ?_, ?_, ?_, ?_, ?_⟩, hext⟩
  · exact inv.staging.setStates (fun u => (hevolves u).identityJson) (fun u => (hevolves u).scopeJson)
      hback (fun u hu hlive => (hkeeps u hu hlive).imp_right fun h => h.1) rfl rfl rfl rfl
  · exact inv.published.of_same (fun _ _ => Iff.rfl) rfl rfl (fun c hc => hc) rfl rfl
  · refine inv.baseline.of_extends inv.published hext ?_ ?_ ?_ rfl
    · rintro u' hu'
      obtain ⟨u, hu, rfl⟩ := List.mem_map.mp hu'
      exact ⟨u, hu, hevolves u⟩
    · exact fun e he => ⟨e, he, rfl, rfl⟩
    · exact fun e he => ⟨e, he, rfl, rfl⟩
  · refine inv.idempotency.of_sublist ?_ (List.Sublist.refl _) (List.Sublist.refl _)
    intro r hr u hu hid hlive
    refine ⟨states u, List.mem_map_of_mem hu, (hevolves u).identityJson.trans hid, ?_⟩
    exact (hkeeps u hu hlive).resolve_right fun h => h.2 r hr hid.symm
  · exact inv.crdt.congr (fun _ _ h => h) rfl rfl rfl
  · refine inv.headsStaged.of_kept ?_ (fun _ _ _ _ _ => Iff.rfl) (fun _ _ _ _ _ h => h)
    intro u' hu' hlive'
    obtain ⟨u, hu, rfl⟩ := List.mem_map.mp hu'
    exact ⟨u, hu, (hevolves u).identityJson.symm, hback u hlive'⟩

theorem openUnit (inv : Inv A old) {workUnit : WorkUnit} {now expires : ℕ}
    (hnew : old.workUnit? workUnit.identityJson = none) :
    Inv A (old.openWorkUnit workUnit now expires) ∧
      Extends old (old.openWorkUnit workUnit now expires) := by
  refine ⟨⟨inv.staging.openUnit hnew rfl rfl rfl rfl,
    inv.published.of_same (fun _ _ => Iff.rfl) rfl rfl (fun c hc => hc) rfl rfl,
    inv.baseline.openUnit inv.staging hnew rfl rfl rfl rfl rfl rfl rfl,
    inv.idempotency.congr (fun u hu hlive => ⟨u, List.mem_append_left _ hu, rfl, hlive⟩) rfl rfl,
    inv.crdt.congr (fun _ _ h => h) rfl rfl rfl, ?_⟩, ?_⟩
  · intro u hu hlive head hhead hid
    rcases List.mem_append.mp hu with hu | hu
    · exact inv.headsStaged u hu hlive head hhead hid
    · obtain ⟨e, he, heid, -⟩ := inv.staging.headEntities head hhead
      obtain ⟨u', hu', hid', -⟩ := inv.staging.entityUnits e he
      rw [List.mem_singleton.mp hu] at hid
      have := List.find?_eq_none.mp hnew u' hu'
      simp [hid'.trans (heid.trans hid)] at this
  · exact Extends.of_same (fun _ _ => Iff.rfl) (fun r hr _ _ => Or.inl hr) (fun _ _ _ => rfl) rfl rfl
      rfl rfl fun u hu => ⟨u, List.mem_append_left _ hu, Evolves.refl u⟩

theorem capture (inv : Inv A old) {unit : WorkUnitRow} (hunit : unit ∈ old.workUnits)
    (hscope : unit.scopeJson = key.scopeJson)
    (h : old.captureWorkUnitEntity unit.identityJson key = .ok new) :
    Inv A new ∧ Extends old new := by
  simp only [captureWorkUnitEntity] at h
  split at h
  · rw [Except.ok.injEq] at h
    exact h ▸ ⟨inv, Extends.refl _⟩
  · rename_i hnone
    rw [Option.not_isSome_iff_eq_none] at hnone
    rw [workUnit?_of_mem inv.staging.unitKeys hunit, Except.ok.injEq] at h
    subst h
    refine ⟨⟨inv.staging.capture hunit rfl hscope rfl hnone rfl rfl rfl rfl,
      inv.published.of_same (fun _ _ => Iff.rfl) rfl rfl (fun c hc => hc) rfl rfl,
      inv.baseline.capture inv.staging hunit rfl hnone rfl rfl rfl rfl rfl rfl,
      inv.idempotency.congr (fun u hu hlive => ⟨u, hu, rfl, hlive⟩) rfl rfl,
      inv.crdt.congr (fun _ _ h => h) rfl rfl rfl, inv.headsStaged⟩, ?_⟩
    exact Extends.of_same (fun _ _ => Iff.rfl) (fun r hr _ _ => Or.inl hr) (fun _ _ _ => rfl) rfl rfl
      rfl rfl fun u hu => ⟨u, hu, Evolves.refl u⟩

/-- The heads of a commit are published with it. -/
theorem commit (inv : Inv A old) (hlaw : A.Lawful) {entity : EntityCommit}
    (hformed : entity.WellFormed A)
    (h : old.commitEntityInTransaction entity = .ok (.committed, new)) :
    Inv A new ∧ Extends old new := by
  obtain ⟨hexpected, ⟨versions, heads, changes, lastCursor, headHistory, causalFrontier,
    scopeFrontier, sessionFrontier, crdtChanges, crdtParents, crdtHeads, heq⟩, hpublishes,
    ⟨recordedAt, hversions⟩, -, hcrdt, hgrows, hfresh, hnames⟩ :=
    commitEntityInTransaction_spec hlaw inv.crdt hformed.genuine h
  have hrows : ∀ r ∈ old.versions, r ∈ new.versions :=
    fun r hr => hversions ▸ List.mem_append_left _ hr
  have hnewPublished : ∀ name ∈ entity.newVersions.map (·.version),
      new.IsPublished entity.key name := by
    intro name hname
    obtain ⟨v, hv, rfl⟩ := List.mem_map.mp hname
    exact ⟨_, hversions ▸ List.mem_append_right _ (List.mem_map_of_mem hv), rfl, rfl, rfl⟩
  have hheads : ∀ version ∈ entity.headVersions, new.IsPublished entity.key version := by
    intro version hversion
    rcases hformed.heads version hversion with hname | hold
    · exact hnewPublished version hname
    · have hmem : version ∈ old.publishedHeads entity.key := by
        rw [hexpected]
        exact Table.mem_sorted.mpr hold
      obtain ⟨r, hr, hrest⟩ := inv.published.isPublished (mem_publishedHeads.mp hmem)
      exact ⟨r, hrows r hr, hrest⟩
  have hlater : ∀ r ∈ new.versions, r.workUnitJson = none →
      r ∈ old.versions ∨ r.key = entity.key ∧ r.publishedCursor = some (old.lastCursor + 1) := by
    intro r hr _
    rw [hversions] at hr
    rcases List.mem_append.mp hr with hr | hr
    · exact Or.inl hr
    · obtain ⟨v, -, rfl⟩ := List.mem_map.mp hr
      exact Or.inr ⟨rfl, rfl⟩
  have hunits : new.workUnits = old.workUnits := by rw [heq]
  have hext : Extends old new := by
    refine Extends.publishes inv.published hpublishes (fun r hr _ => hrows r hr) hlater
      (fun r hr _ _ => Or.inl (hrows r hr)) ?_ ?_ hunits
    · intro r hr _
      exact readCrdtFields_of_grows inv.crdt hgrows fun hnot => hnot ⟨r, hr, rfl, rfl⟩
    · obtain ⟨version, hversion, hname⟩ := hformed.new
      obtain ⟨v, hv, rfl⟩ := List.mem_map.mp hname
      refine ⟨_, hversion, ?_⟩
      rintro ⟨r, hr, hkey, hversion', -⟩
      exact (hfresh v hv).1 ⟨r, hr, hkey, hversion'⟩
  refine ⟨⟨?_, ?_, ?_, ?_, hcrdt, ?_⟩, hext⟩
  · refine inv.staging.addPublished ?_ ?_ ?_ hversions hunits (by rw [heq]) (by rw [heq])
    · intro r hr
      obtain ⟨v, hv, rfl⟩ := List.mem_map.mp hr
      exact (hfresh v hv).1
    · rw [List.map_map, show (fun r : EntityVersionRow => (r.key, r.version)) ∘
        (fun v => publishedRow (old.lastCursor + 1) (insertedRow entity.key none recordedAt v)) =
        (fun name => (entity.key, name)) ∘ (·.version) from rfl, ← List.map_map]
      exact hnames.map fun a b h => (Prod.mk.inj h).2
    · intro r hr
      obtain ⟨v, -, rfl⟩ := List.mem_map.mp hr
      rfl
  · exact inv.published.publishes hpublishes (fun r hr _ => hrows r hr) hlater hheads
      (hnewPublished _ hformed.token)
  · refine inv.baseline.of_extends inv.published hext ?_ ?_ ?_ (by rw [heq])
    · exact fun u hu => ⟨u, hunits ▸ hu, Evolves.refl u⟩
    · exact fun e he => ⟨e, by rw [heq] at he; exact he, rfl, rfl⟩
    · exact fun e he => ⟨e, by rw [heq]; exact he, rfl, rfl⟩
  · exact inv.idempotency.congr (fun u hu hlive => ⟨u, hunits ▸ hu, rfl, hlive⟩) (by rw [heq])
      (by rw [heq])
  · refine inv.headsStaged.of_kept ?_ ?_ ?_
    · exact fun u hu hlive => ⟨u, hunits ▸ hu, rfl, hlive⟩
    · intro _ _ _ head _
      rw [heq]
    · rintro u - - k version ⟨r, hr, hrest⟩
      exact ⟨r, hrows r hr, hrest⟩

/-- A head of a unit is published or staged by the unit. -/
theorem workUnitHeads_stored (inv : Inv A db) {unit version : String}
    (h : version ∈ db.workUnitHeads unit key) :
    db.IsPublished key version ∨ db.StagedBy unit key version := by
  unfold workUnitHeads at h
  split at h
  · have hbase := mem_workUnitBaseHeads.mp h
    obtain ⟨e, he, heid, hekey⟩ := inv.baseline.entities _ hbase
    obtain ⟨u, hu, huid, -⟩ := inv.staging.entityUnits e he
    simp only at heid hekey
    have := (inv.baseline.base e he u hu huid version true).mp (by rw [heid, hekey]; exact hbase)
    obtain ⟨r, hr, hkey, hname, hby⟩ := this.1
    exact Or.inl ⟨r, hr, hkey.trans hekey, hname, hby.1⟩
  · obtain ⟨r, hr, hkey, hname, hown | hnone⟩ :=
      inv.staging.headVersions _ (mem_directWorkUnitHeads.mp h)
    · exact Or.inr ⟨r, hr, hown, hkey, hname⟩
    · exact Or.inl ⟨r, hr, hkey, hname, hnone⟩

/-- A live unit stages versions of an entity. `entities` says what is recorded of the entities. -/
theorem addStaged (inv : Inv A old) (hlaw : A.Lawful) {mid : Db} {unit : WorkUnitRow}
    {entities : List WorkUnitEntityRow} {versions : List StoredEntityVersion}
    {heads : List String} {recordedAt : ℕ} (hunit : unit ∈ old.workUnits) (hlive : unit.Live)
    (hfrom : ∀ e' ∈ entities, ∃ e ∈ old.unitEntities, e.workUnitJson = e'.workUnitJson ∧
      e.key = e'.key ∧ (e'.causalToken = e.causalToken ∨ e.workUnitJson = unit.identityJson ∧
        e.key = key ∧ ∃ token ∈ versions.map (·.version), e'.causalToken = some token))
    (hkeys : (entities.map fun e => (e.workUnitJson, e.key)) =
      old.unitEntities.map fun e => (e.workUnitJson, e.key))
    (hheads : ∀ version ∈ heads, version ∈ versions.map (·.version) ∨
      old.IsPublished key version ∨ old.StagedBy unit.identityJson key version)
    (hnew : ∃ version ∈ heads, version ∈ versions.map (·.version) ∨
      old.StagedBy unit.identityJson key version)
    (hgenuine : ∀ v ∈ versions, ∀ f ∈ v.crdtFields, ∀ c ∈ f.changes, Genuine A c)
    (hinsert : insertEntityVersions { old with unitEntities := entities } key versions
      (some unit.identityJson) recordedAt = .ok mid)
    (h : mid.replaceWorkUnitHeads unit.identityJson key heads = .ok new) :
    Inv A new ∧ Extends old new := by
  have hmem : ∀ k, k ∈ entities.map (fun e => (e.workUnitJson, e.key)) ↔
      k ∈ old.unitEntities.map fun e => (e.workUnitJson, e.key) := fun k => by rw [hkeys]
  have hto : ∀ e ∈ old.unitEntities, ∃ e' ∈ entities, e'.workUnitJson = e.workUnitJson ∧
      e'.key = e.key := by
    intro e he
    obtain ⟨e', he', heq⟩ := List.mem_map.mp ((hmem _).mpr (List.mem_map_of_mem he))
    exact ⟨e', he', (Prod.mk.inj heq).1, (Prod.mk.inj heq).2⟩
  have hcrdt : CrdtInv A { old with unitEntities := entities } :=
    inv.crdt.congr (fun _ _ h => h) rfl rfl rfl
  obtain ⟨⟨crdtChanges, crdtParents, crdtHeads, heq⟩, hnodup, hne, hentity, -, hcrdt', hgrows,
    hfresh, hnames⟩ := stage_spec hlaw hcrdt hgenuine hinsert h
  have hversions : new.versions =
      old.versions ++ versions.map (insertedRow key (some unit.identityJson) recordedAt) := by
    rw [heq]
  have hrows : ∀ r ∈ old.versions, r ∈ new.versions :=
    fun r hr => hversions ▸ List.mem_append_left _ hr
  have hunits : new.workUnits = old.workUnits := by rw [heq]
  have hfields : ∀ r ∈ old.versions, new.readCrdtFields r.key r.version =
      old.readCrdtFields r.key r.version := by
    intro r hr
    have hsame : new.readCrdtFields r.key r.version =
        readCrdtFields { old with unitEntities := entities } r.key r.version :=
      readCrdtFields_of_grows hcrdt hgrows fun hnot => hnot ⟨r, hr, rfl, rfl⟩
    rw [hsame]
    rfl
  have hext : Extends old new := by
    refine Extends.of_same (fun r hunit' => ⟨fun hr => ?_, hrows r⟩)
      (fun r hr _ _ => Or.inl (hrows r hr)) (fun r hr _ => hfields r hr) (by rw [heq]) (by rw [heq]) (by rw [heq]) (by rw [heq])
      fun u hu => ⟨u, hunits ▸ hu, Evolves.refl u⟩
    rw [hversions] at hr
    rcases List.mem_append.mp hr with hr | hr
    · exact hr
    · obtain ⟨v, -, rfl⟩ := List.mem_map.mp hr
      cases hunit'
  have hentity' : (old.unitEntity? unit.identityJson key).isSome := by
    obtain ⟨e', he'⟩ := Option.isSome_iff_exists.mp hentity
    have hfound := List.find?_some he'
    simp only [decide_eq_true_eq] at hfound
    obtain ⟨e, he, hid, hkey, -⟩ := hfrom e' (List.mem_of_find?_eq_some he')
    refine List.find?_isSome.mpr ⟨e, he, ?_⟩
    simp [hid.trans hfound.1, hkey.trans hfound.2]
  have hown : ∃ version ∈ heads, new.StagedBy unit.identityJson key version := by
    obtain ⟨version, hversion, hname | ⟨r, hr, hrest⟩⟩ := hnew
    · obtain ⟨v, hv, rfl⟩ := List.mem_map.mp hname
      exact ⟨_, hversion, _, hversions ▸ List.mem_append_right _ (List.mem_map_of_mem hv), rfl, rfl,
        rfl⟩
    · exact ⟨version, hversion, r, hrows r hr, hrest⟩
  refine ⟨⟨?_, ?_, ?_, ?_, hcrdt', ?_⟩, hext⟩
  · exact inv.staging.addStaged hunit hlive (fun v hv => (hfresh v hv).1) hnames hnodup hne hentity'
      hheads hfrom hto hkeys hversions hunits (by rw [heq]) (by rw [heq])
  · refine inv.published.of_same (fun r hunit' => ⟨fun hr => ?_, hrows r⟩) (by rw [heq]) (by rw [heq])
      (fun c hc => by rw [heq] at hc; exact hc) (by rw [heq]) (by rw [heq])
    exact (hext.later r hr hunit').resolve_right fun ⟨cursor, hcursor, _⟩ => by
      rw [hversions] at hr
      rcases List.mem_append.mp hr with hr | hr
      · have := inv.published.published r hr hunit'
        obtain ⟨-, c, hc, hle⟩ := this
        have := inv.published.frontier r.key.scopeJson
        rw [hcursor, Option.some.injEq] at hc
        omega
      · obtain ⟨v, -, rfl⟩ := List.mem_map.mp hr
        cases hunit'
  · refine inv.baseline.of_extends inv.published hext ?_ ?_ ?_ (by rw [heq])
    · exact fun u hu => ⟨u, hunits ▸ hu, Evolves.refl u⟩
    · intro e' he'
      rw [heq] at he'
      obtain ⟨e, he, hid, hkey, -⟩ := hfrom e' he'
      exact ⟨e, he, hid, hkey⟩
    · intro e he
      rw [heq]
      exact hto e he
  · exact inv.idempotency.congr (fun u hu hlive => ⟨u, hunits ▸ hu, rfl, hlive⟩) (by rw [heq])
      (by rw [heq])
  · exact inv.headsStaged.addStaged hunits hversions (by rw [heq]) hown

theorem stage (inv : Inv A old) (hlaw : A.Lawful) {unit : WorkUnitRow} {staged : WorkUnitCommit}
    {recordedAt : ℕ} (hunit : unit ∈ old.workUnits)
    (hid : staged.workUnit.identityJson = unit.identityJson) (hopen : unit.state = .opened)
    (hformed : staged.entity.WellFormed A)
    (hheads : old.workUnitHeads unit.identityJson staged.entity.key =
      Table.sorted staged.entity.expectedHeads)
    (h : (old.recordStagedMutation staged).stageMutation staged recordedAt = .ok new) :
    Inv A new ∧ Extends old new := by
  obtain ⟨mid, hinsert, hreplace⟩ := Except.bind_eq_ok.mp h
  rw [hid] at hinsert hreplace
  refine inv.addStaged hlaw hunit (Or.inl hopen) ?_ ?_ ?_ ?_ hformed.genuine hinsert hreplace
  · intro e' he'
    obtain ⟨e, he, rfl⟩ := List.mem_map.mp he'
    refine ⟨e, he, ?_⟩
    split
    · rename_i hmem
      exact ⟨rfl, rfl, Or.inr ⟨hmem.1.trans hid, hmem.2, _, hformed.token, rfl⟩⟩
    · exact ⟨rfl, rfl, Or.inl rfl⟩
  · rw [List.map_map]
    refine List.map_congr_left fun e _ => ?_
    dsimp only [Function.comp_apply]
    split <;> rfl
  · intro version hversion
    refine (hformed.heads version hversion).imp_right fun hold => inv.workUnitHeads_stored ?_
    rw [hheads]
    exact Table.mem_sorted.mpr hold
  · obtain ⟨version, hversion, hname⟩ := hformed.new
    exact ⟨version, hversion, Or.inl hname⟩

theorem resolve (inv : Inv A old) (hlaw : A.Lawful) {mid : Db} {unit : WorkUnitRow}
    {versions : List StoredEntityVersion} {heads : List String} {recordedAt : ℕ}
    (hunit : unit ∈ old.workUnits) (hclosing : unit.state = .closing)
    (hheads : ∀ version ∈ heads, version ∈ versions.map (·.version) ∨
      version ∈ old.directWorkUnitHeads unit.identityJson key ∨ version ∈ old.publishedHeads key)
    (hnew : ∃ version ∈ heads, version ∈ versions.map (·.version) ∨
      old.StagedBy unit.identityJson key version)
    (hgenuine : ∀ v ∈ versions, ∀ f ∈ v.crdtFields, ∀ c ∈ f.changes, Genuine A c)
    (hinsert : old.insertEntityVersions key versions (some unit.identityJson) recordedAt = .ok mid)
    (h : mid.replaceWorkUnitHeads unit.identityJson key heads = .ok new) :
    Inv A new ∧ Extends old new := by
  refine inv.addStaged hlaw hunit (Or.inr hclosing) ?_ rfl ?_ hnew hgenuine hinsert h
  · exact fun e he => ⟨e, he, rfl, rfl, Or.inl rfl⟩
  · intro version hversion
    refine (hheads version hversion).imp_right fun hold => ?_
    rcases hold with hdirect | hpublished
    · obtain ⟨r, hr, hkey, hname, hown | hnone⟩ :=
        inv.staging.headVersions _ (mem_directWorkUnitHeads.mp hdirect)
      · exact Or.inr ⟨r, hr, hown, hkey, hname⟩
      · exact Or.inl ⟨r, hr, hkey, hname, hnone⟩
    · exact Or.inl (inv.published.isPublished (mem_publishedHeads.mp hpublished))

/-- A published version is not staged. -/
theorem not_stagedBy_published (inv : Inv A db) {unit version : String}
    (h : db.IsPublished key version) : ¬ db.StagedBy unit key version := by
  obtain ⟨r, hr, rfl, rfl, hnone⟩ := h
  exact inv.staging.not_stagedBy hr (by simp [hnone])

theorem expire (inv : Inv A old) {unit : WorkUnitRow} {now : ℕ} (hunit : unit ∈ old.workUnits)
    (hlive : unit.Live) (h : old.expireWorkUnit unit.identityJson now = .ok new) :
    Inv A new ∧ Extends old new := by
  obtain ⟨heq, -⟩ := expireWorkUnit_spec h
  have hversions : new.versions =
      old.versions.filter (·.workUnitJson ≠ some unit.identityJson) := by
    rw [heq]
    rfl
  have hunits : new.workUnits = old.workUnits.map fun row =>
      if row.identityJson = unit.identityJson ∧ row.Live then
        { row with state := .expired, closedAtUnixMs := some now } else row := by
    rw [heq]
    rfl
  have hheads : new.heads = old.heads := by
    have : new.heads = old.heads.filter fun head =>
        ¬ old.StagedBy unit.identityJson head.key head.version := by
      rw [heq]
      rfl
    rw [this]
    refine List.filter_eq_self.mpr fun head hhead => ?_
    rw [decide_eq_true_eq]
    exact inv.not_stagedBy_published (inv.published.isPublished hhead)
  have hkept : ∀ r, r ∈ new.versions ↔
      r ∈ old.versions ∧ r.workUnitJson ≠ some unit.identityJson := by
    intro r
    rw [hversions, List.mem_filter, decide_eq_true_eq]
  have hpublishedRows : ∀ r : EntityVersionRow, r.workUnitJson = none →
      (r ∈ new.versions ↔ r ∈ old.versions) := by
    intro r hnone
    rw [hkept]
    exact and_iff_left (by simp [hnone])
  have hevolves : ∀ u ∈ old.workUnits, ∃ u' ∈ new.workUnits, Evolves u u' := by
    intro u hu
    rw [hunits]
    refine ⟨_, List.mem_map_of_mem hu, ?_⟩
    split
    · rename_i hmem
      exact ⟨rfl, rfl, rfl, rfl, rfl, hmem.2.imp id (fun hc => ⟨hc, by simp⟩) |>.elim
        (fun h => Or.inr (Or.inl h)) (fun h => Or.inr (Or.inr h))⟩
    · exact Evolves.refl u
  have hback : ∀ u' ∈ new.workUnits, ∃ u ∈ old.workUnits, Evolves u u' ∧
      (u'.Live → u' = u ∧ u.identityJson ≠ unit.identityJson) := by
    intro u' hu'
    rw [hunits] at hu'
    obtain ⟨u, hu, rfl⟩ := List.mem_map.mp hu'
    refine ⟨u, hu, ?_⟩
    split
    · rename_i hmem
      refine ⟨⟨rfl, rfl, rfl, rfl, rfl, ?_⟩, fun hno => by simp [WorkUnitRow.Live] at hno⟩
      rcases hmem.2 with hopen | hclosing
      · exact Or.inr (Or.inl hopen)
      · exact Or.inr (Or.inr ⟨hclosing, by simp⟩)
    · rename_i hnot
      exact ⟨Evolves.refl u, fun hno => ⟨rfl, fun hid => hnot ⟨hid, hno⟩⟩⟩
  have hstays : ∀ u ∈ old.workUnits, u.identityJson ≠ unit.identityJson → u ∈ new.workUnits := by
    intro u hu hne
    rw [hunits]
    refine List.mem_map.mpr ⟨u, hu, ?_⟩
    rw [if_neg fun hmem => hne hmem.1]
  have hext : Extends old new := by
    refine Extends.of_same hpublishedRows ?_ ?_ hheads (by rw [heq]; rfl) (by rw [heq]; rfl)
      (by rw [heq]; rfl) hevolves
    · intro r hr id hid
      by_cases hsame : id = unit.identityJson
      · subst hsame
        refine Or.inr ⟨{ unit with state := .expired, closedAtUnixMs := some now }, ?_, rfl, rfl⟩
        rw [hunits]
        refine List.mem_map.mpr ⟨unit, hunit, ?_⟩
        rw [if_pos ⟨rfl, hlive⟩]
      · refine Or.inl ((hkept r).mpr ⟨hr, ?_⟩)
        rw [hid]
        exact fun hno => hsame (Option.some.inj hno)
    · intro r hr hnone
      rw [heq, readCrdtFields_collectChanges]
      apply readCrdtFields_congr
      · rfl
      · rfl
      rw [List.filter_filter]
      refine List.filter_congr fun head _ => ?_
      by_cases hmem : head.key = r.key ∧ head.version = r.version
      · have : ¬ old.StagedBy unit.identityJson head.key head.version :=
          inv.not_stagedBy_published ⟨r, hr, hmem.1.symm, hmem.2.symm, hnone⟩
        simp [this]
      · simp [hmem]
  refine ⟨⟨?_, ?_, ?_, ?_, ?_, ?_⟩, hext⟩
  · exact inv.staging.expire hversions hunits (by rw [heq]; rfl) (by rw [heq]; rfl)
  · exact inv.published.of_same hpublishedRows hheads (by rw [heq]; rfl)
      (fun c hc => by rw [heq] at hc; exact hc) (by rw [heq]; rfl) (by rw [heq]; rfl)
  · refine inv.baseline.of_extends inv.published hext ?_ ?_ ?_ (by rw [heq]; rfl)
    · intro u' hu'
      obtain ⟨u, hu, hev, -⟩ := hback u' hu'
      exact ⟨u, hu, hev⟩
    · exact fun e he => ⟨e, by rw [heq] at he; exact he, rfl, rfl⟩
    · exact fun e he => ⟨e, by rw [heq]; exact he, rfl, rfl⟩
  · have hrecords : new.unitIdempotency =
        old.unitIdempotency.filter (·.workUnitJson ≠ unit.identityJson) := by
      rw [heq]
      rfl
    refine inv.idempotency.of_sublist ?_ (by rw [heq]; exact List.Sublist.refl _)
      (hrecords ▸ List.filter_sublist)
    intro r hr u hu hid hulive
    rw [hrecords, List.mem_filter, decide_eq_true_eq] at hr
    exact ⟨u, hstays u hu (hid ▸ hr.2), hid, hulive⟩
  · rw [heq]
    refine CrdtInv.collect (inv.crdt.shrink ?_ rfl rfl rfl rfl)
    intro head hhead
    rw [List.mem_filter, decide_eq_true_eq] at hhead
    obtain ⟨r, hr, hkey, hname⟩ := (inv.crdt.heads head hhead.1).1
    refine ⟨hhead.1, r, ?_, hkey, hname⟩
    rw [List.mem_filter, decide_eq_true_eq]
    exact ⟨hr, fun hown => hhead.2 ⟨r, hr, hown, hkey, hname⟩⟩
  · refine inv.headsStaged.of_kept ?_ ?_ ?_
    · intro u' hu' hlive'
      obtain ⟨u, hu, -, hsame⟩ := hback u' hu'
      obtain ⟨rfl, -⟩ := hsame hlive'
      exact ⟨u', hu, rfl, hlive'⟩
    · intro u' hu' hlive' head hid
      obtain ⟨u, hu, -, hsame⟩ := hback u' hu'
      obtain ⟨rfl, hne⟩ := hsame hlive'
      have hunitHeads : new.unitHeads = old.unitHeads.filter fun head =>
          ¬ old.StagedBy unit.identityJson head.key head.version := by
        rw [heq]
        rfl
      rw [hunitHeads, List.mem_filter, decide_eq_true_eq]
      refine and_iff_left_of_imp fun hmem => ?_
      obtain ⟨r, hr, hkey, hname, hown⟩ := inv.staging.headVersions head hmem
      rw [← hkey, ← hname]
      refine inv.staging.not_stagedBy hr fun hsome => ?_
      rw [hsome] at hown
      rcases hown with hown | hown
      · exact hne (hid.symm.trans (Option.some.inj hown).symm)
      · cases hown
    · intro u' hu' hlive' k version hstaged
      obtain ⟨u, hu, -, hsame⟩ := hback u' hu'
      obtain ⟨rfl, hne⟩ := hsame hlive'
      obtain ⟨r, hr, hown, hrest⟩ := hstaged
      refine ⟨r, (hkept r).mpr ⟨hr, ?_⟩, hown, hrest⟩
      rw [hown]
      exact fun hno => hne (Option.some.inj hno)

theorem publish (inv : Inv A old) {unit : WorkUnitRow} {recordedAt : ℕ}
    (hunit : unit ∈ old.workUnits) (hclosing : unit.state = .closing)
    (h : old.finishWorkUnitPublication unit.identityJson recordedAt = .ok new) :
    Inv A new ∧ Extends old new := by
  obtain ⟨mid, hloop, hpublished, hnone, hfree, hnodup, heq⟩ :=
    finishWorkUnitPublication_spec inv hunit (Or.inr hclosing) h
  have hversions : new.versions = mid.versions := by rw [heq]
  have hunits : new.workUnits = old.workUnits.map fun row =>
      if row.identityJson = unit.identityJson then
        { row with state := .committed, closedAtUnixMs := some recordedAt } else row := by
    rw [heq, hpublished.workUnits_eq]
  have hunitOnly : ∀ u ∈ old.workUnits, u.identityJson = unit.identityJson → u = unit :=
    fun u hu hid => inv.staging.unit_eq hu hunit hid
  have hevolves : ∀ u ∈ old.workUnits, Evolves u
      (if u.identityJson = unit.identityJson then
        { u with state := .committed, closedAtUnixMs := some recordedAt } else u) := by
    intro u hu
    split
    · rename_i hid
      refine ⟨rfl, rfl, rfl, rfl, rfl, Or.inr (Or.inr ⟨?_, by simp⟩)⟩
      rw [hunitOnly u hu hid]
      exact hclosing
    · exact Evolves.refl u
  have hforward : ∀ u ∈ old.workUnits, ∃ u' ∈ new.workUnits, Evolves u u' :=
    fun u hu => ⟨_, hunits ▸ List.mem_map_of_mem hu, hevolves u hu⟩
  have hback : ∀ u' ∈ new.workUnits, ∃ u ∈ old.workUnits, Evolves u u' ∧
      (u'.Live → u' = u ∧ u.identityJson ≠ unit.identityJson) := by
    intro u' hu'
    rw [hunits] at hu'
    obtain ⟨u, hu, rfl⟩ := List.mem_map.mp hu'
    refine ⟨u, hu, hevolves u hu, ?_⟩
    split
    · exact fun hno => by simp [WorkUnitRow.Live] at hno
    · rename_i hne
      exact fun _ => ⟨rfl, hne⟩
  have hstays : ∀ u ∈ old.workUnits, u.identityJson ≠ unit.identityJson → u ∈ new.workUnits := by
    intro u hu hne
    rw [hunits]
    refine List.mem_map.mpr ⟨u, hu, ?_⟩
    rw [if_neg hne]
  have hend : Extends mid new := by
    refine Extends.of_same (fun r _ => by rw [hversions]) (fun r hr _ _ => Or.inl (hversions ▸ hr)) ?_
      (by rw [heq]) (by rw [heq]) (by rw [heq]) (by rw [heq]) ?_
    · intro r _ _
      rw [heq]
      rfl
    · rw [hpublished.workUnits_eq]
      exact hforward
  refine ⟨⟨?_, ?_, ?_, ?_, ?_, ?_⟩, hpublished.grows.trans hend⟩
  · refine hloop.staging.setStates (fun u => ?_) (fun u => ?_) (fun u hlive => ?_)
      (fun u hu _ => ?_) hversions (by rw [heq]) (by rw [heq]) (by rw [heq])
    · split <;> rfl
    · split <;> rfl
    · split at hlive
      · simp [WorkUnitRow.Live] at hlive
      · exact hlive
    · by_cases hid : u.identityJson = unit.identityJson
      · exact Or.inr fun r hr => hid ▸ hnone r hr
      · rw [if_neg hid]
        exact Or.inl ‹_›
  · exact hloop.published.of_same (fun r _ => by rw [hversions]) (by rw [heq]) (by rw [heq])
      (fun c hc => by rw [heq] at hc; exact hc) (by rw [heq]) (by rw [heq])
  · refine hloop.baseline.of_extends hloop.published hend ?_ ?_ ?_ (by rw [heq])
    · intro u' hu'
      obtain ⟨u, hu, hev, -⟩ := hback u' hu'
      exact ⟨u, hpublished.workUnits_eq ▸ hu, hev⟩
    · exact fun e he => ⟨e, by rw [heq] at he; exact he, rfl, rfl⟩
    · exact fun e he => ⟨e, by rw [heq]; exact he, rfl, rfl⟩
  · have hmid : IdempotencyInv mid :=
      inv.idempotency.congr (fun u hu hlive => ⟨u, hpublished.workUnits_eq ▸ hu, rfl, hlive⟩)
        hpublished.idempotency_eq hpublished.unitIdempotency_eq
    refine hmid.publishUnit hfree hnodup ?_ (by rw [heq]) (by rw [heq])
    rw [hpublished.workUnits_eq]
    exact hstays
  · refine inv.crdt.congr ?_ (by rw [heq]; exact hpublished.crdtChanges_eq)
      (by rw [heq]; exact hpublished.crdtParents_eq) (by rw [heq]; exact hpublished.crdtHeads_eq)
    rintro k v ⟨r, hr, hkey, hname⟩
    by_cases hmem : r.workUnitJson = some unit.identityJson ∧
        r.key ∈ old.workUnitMutatedEntities unit.identityJson
    · obtain ⟨cursor, hrow⟩ := hpublished.published r hr hmem.1 hmem.2
      exact ⟨publishedRow cursor r, by rw [hversions]; exact hrow, hkey, hname⟩
    · exact ⟨r, hversions ▸ hpublished.others r hr hmem, hkey, hname⟩
  · refine inv.headsStaged.of_kept ?_ ?_ ?_
    · intro u' hu' hlive'
      obtain ⟨u, hu, -, hsame⟩ := hback u' hu'
      obtain ⟨rfl, -⟩ := hsame hlive'
      exact ⟨u', hu, rfl, hlive'⟩
    · intro _ _ _ head _
      rw [heq]
      exact iff_of_eq (congrArg (head ∈ ·) hpublished.unitHeads_eq)
    · intro u' hu' hlive' k version hstaged
      obtain ⟨u, hu, -, hsame⟩ := hback u' hu'
      obtain ⟨rfl, hne⟩ := hsame hlive'
      obtain ⟨r, hr, hown, hrest⟩ := hstaged
      refine ⟨r, hversions ▸ hpublished.others r hr fun hmem => hne ?_, hown, hrest⟩
      rw [hown] at hmem
      exact Option.some.inj hmem.1

/-- The invariant of a new provider. -/
theorem empty (A : Automerge) : Inv A Db.empty := by
  refine ⟨⟨?_, ?_, ?_, ?_, ?_, ?_, ?_, ?_, ?_⟩, ⟨?_, ?_, ?_, ?_, ?_, ?_⟩, ⟨?_, ?_, ?_, ?_⟩,
    ⟨?_, ?_, ?_, ?_⟩, ⟨?_, ?_, ?_⟩, ?_⟩ <;>
    simp [VersionKeys, HeadsStaged, Db.empty, currentScopeCursor, Db.headsAt, newest]

end Inv

end Db

/-! ### All effects -/

section Effects

variable {A : Automerge} {K : Known} {old new : Db}

open Db

/-- Upkeep keeps the invariant and extends the tables. -/
theorem Upkeep.keeps (inv : Inv A old) (h : Upkeep K old new) : Inv A new ∧ Extends old new := by
  cases h with
  | sessions scope consistency frontier _ =>
    exact inv.bookkeeping (inv.idempotency.congr (fun u hu hlive => ⟨u, hu, rfl, hlive⟩) rfl rfl)
      (fun _ hc => hc) ⟨_, _, _, _, _, rfl⟩
  | forget now =>
    exact inv.bookkeeping (inv.idempotency.of_sublist (fun _ _ u hu hid hlive => ⟨u, hu, hid, hlive⟩)
      List.filter_sublist List.filter_sublist) (fun _ hc => hc) ⟨_, _, _, _, _, rfl⟩
  | note retainedAfter _ =>
    exact inv.bookkeeping (inv.idempotency.congr (fun u hu hlive => ⟨u, hu, rfl, hlive⟩) rfl rfl)
      (fun _ hc => hc) ⟨_, _, _, _, _, rfl⟩
  | prune retainedAfter _ _ =>
    exact inv.bookkeeping (inv.idempotency.congr (fun u hu hlive => ⟨u, hu, rfl, hlive⟩) rfl rfl)
      (fun _ hc => (List.mem_filter.mp hc).1) ⟨_, _, _, _, _, rfl⟩
  | expire h =>
    obtain ⟨hunit, hlive, -, h⟩ := h
    exact inv.expire hunit hlive h
  | openUnit workUnit now expires _ hnew => exact inv.openUnit hnew
  | capture hunit _ hscope h => exact inv.capture hunit hscope h

/-- **Every effect keeps the invariant and extends the tables.** -/
theorem Effect.keeps (hlaw : A.Lawful) (inv : Inv A old) (h : Effect A K old new) :
    Inv A new ∧ Extends old new := by
  cases h with
  | upkeep h => exact h.keeps inv
  | commit hformed _ h => exact inv.commit hlaw hformed h
  | record hfree h =>
    simp only [insertIdempotency, Except.bind_eq_ok, require_eq_ok, Except.pure_eq_ok,
      Except.ok.injEq] at h
    obtain ⟨_, -, _, hnew, rfl⟩ := h
    exact inv.bookkeeping (inv.idempotency.record hnew hfree rfl rfl rfl) (fun _ hc => hc)
      ⟨_, _, _, _, _, rfl⟩
  | stage hunit hid hopen hformed _ hheads h =>
    exact inv.stage hlaw hunit hid hopen hformed hheads h
  | stageRecord hunit hlive hfree h =>
    simp only [insertWorkUnitIdempotency, Except.bind_eq_ok, require_eq_ok, Except.pure_eq_ok,
      Except.ok.injEq] at h
    obtain ⟨_, -, _, hnew, _, -, rfl⟩ := h
    exact inv.bookkeeping (inv.idempotency.stageRecord hunit hlive hnew hfree rfl rfl rfl)
      (fun _ hc => hc) ⟨_, _, _, _, _, rfl⟩
  | close identity =>
    refine inv.setStates (fun u => ?_) (fun u hlive => ?_) (fun u _ hlive => Or.inl ?_)
    · split
      · rename_i hopen
        exact ⟨rfl, rfl, rfl, rfl, rfl, Or.inr (Or.inl hopen.2)⟩
      · exact Evolves.refl u
    · split at hlive
      · rename_i hopen
        exact Or.inl hopen.2
      · exact hlive
    · split
      · exact Or.inr rfl
      · exact hlive
  | resolve hunit hclosing hheads hnew hgenuine _ hinsert h =>
    exact inv.resolve hlaw hunit hclosing hheads hnew hgenuine hinsert h
  | publish hunit hclosing h => exact inv.publish hunit hclosing h

/-- A sequence of effects keeps the invariant and extends the tables. -/
theorem Effects.keeps (hlaw : A.Lawful) (inv : Inv A old) (h : Effects A K old new) :
    Inv A new ∧ Extends old new := by
  induction h with
  | refl => exact ⟨inv, Extends.refl _⟩
  | tail _ hstep ih =>
    obtain ⟨hinv, hext⟩ := hstep.keeps hlaw ih.1
    exact ⟨hinv, ih.2.trans hext⟩

end Effects

end Patchouli
