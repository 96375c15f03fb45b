import Patchouli.Sqlite.Commit
import Patchouli.Sqlite.CrdtStore
import Patchouli.Sqlite.Frontiers

/-!
# What transactions do

Every transaction of the provider is a sequence of a few effects on the tables: a unit expires, is
opened or captures an entity, an entity is committed or staged, a unit is closed or published, some
bookkeeping is done. `Effect` lists them, with what is known where they happen; each has a lemma
that says what it leaves in the tables. Everything proved about runs goes through this list.

## Main definitions

* `EntityCommit.WellFormed` — what the engine guarantees of a commit
* `Expiry`, `Upkeep`, `Effect`, with what is `Known` of what they bring in

## Main results

* `insertEntityVersions_spec`, `commitEntityInTransaction_spec`, `stageMutation_spec`,
  `publishWorkUnitEntity_spec`, `expireWorkUnit_spec`
-/

namespace Patchouli

namespace Db

variable {A : Automerge} {db old new : Db} {key : EntityKey}

/-! ### Rows -/

/-- A version as it is inserted. -/
def insertedRow (key : EntityKey) (workUnit : Option String) (recordedAt : ℕ)
    (version : StoredEntityVersion) : EntityVersionRow :=
  { key, version := version.version, state := version.state, valueJson := version.valueJson
    workUnitJson := workUnit, publishedCursor := none, recordedAtUnixMs := recordedAt }

/-- A row after its publication. -/
def publishedRow (cursor : ℕ) (row : EntityVersionRow) : EntityVersionRow :=
  { row with workUnitJson := none, publishedCursor := some cursor }

/-- A version that has been published. -/
def IsPublished (db : Db) (key : EntityKey) (version : String) : Prop :=
  ∃ row ∈ db.versions, row.key = key ∧ row.version = version ∧ row.workUnitJson = none

/-- Every version has its own name within its entity. -/
def VersionKeys (db : Db) : Prop := (db.versions.map fun row => (row.key, row.version)).Nodup

theorem VersionKeys.eq (h : VersionKeys db) {row row' : EntityVersionRow} (hrow : row ∈ db.versions)
    (hrow' : row' ∈ db.versions) (hkey : row.key = row'.key)
    (hversion : row.version = row'.version) : row = row' :=
  Table.eq_of_key_eq (fun row : EntityVersionRow => (row.key, row.version)) h hrow hrow'
    (by rw [hkey, hversion])

/-! ### Insertion -/

theorem CrdtInv.of_versions (inv : CrdtInv A db) (versions : List EntityVersionRow)
    (h : ∀ row ∈ db.versions, row ∈ versions) : CrdtInv A { db with versions } := by
  refine ⟨inv.edges, inv.determined, fun head hhead => ⟨?_, (inv.heads head hhead).2⟩⟩
  obtain ⟨row, hrow, hkey⟩ := (inv.heads head hhead).1
  exact ⟨row, h row hrow, hkey⟩

/-- The fields of a version, one after the other. -/
theorem foldlM_insertCrdtField (hlaw : A.Lawful) (inv : CrdtInv A old) {version : String}
    {fields : List StoredCrdtField} (hgenuine : ∀ f ∈ fields, ∀ c ∈ f.changes, Genuine A c)
    (h : fields.foldlM (insertCrdtField key version) old = .ok new) :
    (∃ changes parents heads, new = { old with
      crdtChanges := changes, crdtParents := parents, crdtHeads := heads }) ∧
    CrdtInv A new ∧ CrdtGrows old new fun k v => k = key ∧ v = version := by
  induction fields generalizing old with
  | nil =>
    simp only [List.foldlM_nil, Except.pure_eq_ok, Except.ok.injEq] at h
    subst h
    exact ⟨⟨_, _, _, rfl⟩, inv, CrdtGrows.refl _⟩
  | cons field fields ih =>
    rw [List.forall_mem_cons] at hgenuine
    obtain ⟨next, hnext, hrest⟩ := Except.foldlM_cons_eq_ok.mp h
    obtain ⟨⟨c, p, q, rfl⟩, hinv, hgrows⟩ := insertCrdtField_grows hlaw inv hgenuine.1 hnext
    obtain ⟨⟨c', p', q', rfl⟩, hinv', hgrows'⟩ := ih hinv hgenuine.2 hrest
    exact ⟨⟨c', p', q', rfl⟩, hinv', hgrows.trans hgrows'⟩

/-- What the columns of an inserted version satisfy. -/
def Storable (version : StoredEntityVersion) : Prop :=
  version.state = .active ∧ version.valueJson.isSome ∨
    version.state = .deleted ∧ version.valueJson = none

/-- **An insertion appends the rows of the new versions.** -/
theorem insertEntityVersions_spec (hlaw : A.Lawful) (inv : CrdtInv A old)
    {versions : List StoredEntityVersion} {workUnit : Option String} {recordedAt : ℕ}
    (hgenuine : ∀ v ∈ versions, ∀ f ∈ v.crdtFields, ∀ c ∈ f.changes, Genuine A c)
    (h : old.insertEntityVersions key versions workUnit recordedAt = .ok new) :
    (∃ changes parents heads, new = { old with
      versions := old.versions ++ versions.map (insertedRow key workUnit recordedAt)
      crdtChanges := changes, crdtParents := parents, crdtHeads := heads }) ∧
    CrdtInv A new ∧ CrdtGrows old new (fun k v => ¬ old.HasVersion k v) ∧
    (∀ v ∈ versions, ¬ old.HasVersion key v.version ∧ Storable v) ∧
    (versions.map (·.version)).Nodup := by
  induction versions generalizing old with
  | nil =>
    simp only [insertEntityVersions, List.foldlM_nil, Except.pure_eq_ok, Except.ok.injEq] at h
    subst h
    exact ⟨⟨_, _, _, by simp; rfl⟩, inv, CrdtGrows.refl _, by simp, by simp⟩
  | cons version versions ih =>
    rw [List.forall_mem_cons] at hgenuine
    obtain ⟨next, hnext, hrest⟩ := Except.foldlM_cons_eq_ok.mp h
    obtain ⟨mid, hmid, hfields⟩ := Except.bind_eq_ok.mp hnext
    simp only [insertVersion, Except.bind_eq_ok, require_eq_ok, Except.pure_eq_ok,
      Except.ok.injEq] at hmid
    obtain ⟨_, -, _, hstorable, _, hfresh, _, -, rfl⟩ := hmid
    obtain ⟨⟨c, p, q, rfl⟩, hinv, hgrows⟩ := foldlM_insertCrdtField hlaw
      (inv.of_versions _ fun row hrow => List.mem_append_left _ hrow) hgenuine.1 hfields
    obtain ⟨⟨c', p', q', rfl⟩, hinv', hgrows', hnew, hnodup⟩ := ih hinv hgenuine.2 hrest
    have hmono : ∀ k v, old.HasVersion k v → HasVersion
        { old with
          versions := old.versions ++ [insertedRow key workUnit recordedAt version]
          crdtChanges := c, crdtParents := p, crdtHeads := q } k v := by
      rintro k v ⟨row, hrow, hk⟩
      exact ⟨row, List.mem_append_left _ hrow, hk⟩
    refine ⟨⟨c', p', q', ?_⟩, hinv', ?_, ?_, ?_⟩
    · simp only [List.map_cons, Db.mk.injEq, true_and, and_true]
      rw [List.append_assoc]
      rfl
    · refine CrdtGrows.trans (?_ : CrdtGrows old { old with
          versions := old.versions ++ [insertedRow key workUnit recordedAt version]
          crdtChanges := c, crdtParents := p, crdtHeads := q } _) ?_
      · refine ⟨hgrows.changes, hgrows.parents, ?_⟩
        obtain ⟨extra, heq, hextra⟩ := hgrows.heads
        refine ⟨extra, heq, fun row hrow => ?_⟩
        obtain ⟨hk, hv⟩ := hextra row hrow
        rw [hk, hv]
        exact hfresh
      · exact hgrows'.mono fun k v hno hold => hno (hmono k v hold)
    · rw [List.forall_mem_cons]
      refine ⟨⟨hfresh, hstorable⟩, fun v hv => ⟨fun hold => ?_, (hnew v hv).2⟩⟩
      exact (hnew v hv).1 (hmono _ _ hold)
    · rw [List.map_cons, List.nodup_cons]
      refine ⟨fun hmem => ?_, hnodup⟩
      obtain ⟨v, hv, hname⟩ := List.mem_map.mp hmem
      exact (hnew v hv).1 ⟨insertedRow key workUnit recordedAt version,
        List.mem_append_right _ (List.mem_singleton.mpr rfl), rfl, hname.symm⟩

/-! ### Heads and changes -/

theorem uniqueHeads_eq_ok {heads unique : List String} :
    uniqueHeads heads = .ok unique ↔ heads.Nodup ∧ heads ≠ [] ∧ unique = Table.sorted heads := by
  unfold uniqueHeads
  split
  · rename_i hdup
    simp [hdup]
  · rename_i hnodup
    split
    · rename_i hnil
      simp [hnil]
    · rename_i hne
      simp only [Except.pure_eq_ok, Except.ok.injEq]
      exact ⟨fun h => ⟨not_not.mp hnodup, hne, h.symm⟩, fun h => h.2.2.symm⟩

theorem replacePublishedHeads_eq_ok {heads : List String} :
    old.replacePublishedHeads key heads = .ok new ↔
      heads.Nodup ∧ heads ≠ [] ∧ (∀ version ∈ heads, old.HasVersion key version) ∧
        new = { old with heads := old.heads.filter (·.key ≠ key) ++
          (Table.sorted heads).map fun version => ⟨key, version⟩ } := by
  simp only [replacePublishedHeads, Except.bind_eq_ok, uniqueHeads_eq_ok, require_eq_ok,
    Except.pure_eq_ok, Except.ok.injEq]
  constructor
  · rintro ⟨_, ⟨hnodup, hne, rfl⟩, _, hstored, rfl⟩
    exact ⟨hnodup, hne, by simpa using hstored, rfl⟩
  · rintro ⟨hnodup, hne, hstored, rfl⟩
    exact ⟨_, ⟨hnodup, hne, rfl⟩, (), by simpa using hstored, rfl⟩

theorem replaceWorkUnitHeads_eq_ok {unit : String} {heads : List String} :
    old.replaceWorkUnitHeads unit key heads = .ok new ↔
      heads.Nodup ∧ heads ≠ [] ∧ (old.unitEntity? unit key).isSome ∧
        (∀ version ∈ heads, old.HasVersion key version) ∧
        new = { old with
          unitHeads := (old.unitHeads.filter fun head =>
              ¬ (head.workUnitJson = unit ∧ head.key = key)) ++
            (Table.sorted heads).map fun version => ⟨unit, key, version⟩ } := by
  simp only [replaceWorkUnitHeads, Except.bind_eq_ok, uniqueHeads_eq_ok, require_eq_ok,
    Except.pure_eq_ok, Except.ok.injEq]
  constructor
  · rintro ⟨_, ⟨hnodup, hne, rfl⟩, _, ⟨hentity, hstored⟩, rfl⟩
    exact ⟨hnodup, hne, hentity, by simpa using hstored, rfl⟩
  · rintro ⟨hnodup, hne, hentity, hstored, rfl⟩
    exact ⟨_, ⟨hnodup, hne, rfl⟩, (), ⟨hentity, by simpa using hstored⟩, rfl⟩

theorem insertChange_eq_ok {kind : StoredChangeKind} {heads : List String} {causalToken : String}
    {eventMeta : Meta} {recordedAt cursor : ℕ}
    (h : old.insertChange key kind heads causalToken eventMeta recordedAt = .ok (cursor, new)) :
    cursor = old.lastCursor + 1 ∧ new = { old with
      changes := old.changes ++ [{ cursor, key, kind, headVersionsJson := heads, causalToken
                                   eventMetaJson := eventMeta, recordedAtUnixMs := recordedAt }]
      lastCursor := cursor
      headHistory := old.headHistory ++ [⟨key, cursor, heads⟩]
      causalFrontier := old.causalFrontier ++ [⟨causalToken, key.scopeJson, cursor⟩]
      scopeFrontier := advanceScopeFrontier key.scopeJson cursor causalToken
        old.scopeFrontier } := by
  simp only [insertChange, Except.bind_eq_ok, require_eq_ok, Except.pure_eq_ok, Except.ok.injEq,
    Prod.mk.injEq] at h
  obtain ⟨_, -, _, -, rfl, rfl⟩ := h
  exact ⟨rfl, rfl⟩

/-- The token of a change is new. -/
theorem insertChange_fresh {kind : StoredChangeKind} {heads : List String} {causalToken : String}
    {eventMeta : Meta} {recordedAt cursor : ℕ}
    (h : old.insertChange key kind heads causalToken eventMeta recordedAt = .ok (cursor, new)) :
    ∀ row ∈ old.causalFrontier, row.causalToken ≠ causalToken := by
  simp only [insertChange, Except.bind_eq_ok, require_eq_ok] at h
  obtain ⟨_, -, _, hunique, -⟩ := h
  exact hunique.2

/-! ### One publication

An immediate commit and the publication of a staged entity do the same to the published tables. -/

/-- The published tables after heads of an entity were published. -/
structure Publishes (old new : Db) (key : EntityKey) (heads : List String) (causalToken : String) :
    Prop where
  nodup : heads.Nodup
  nonempty : heads ≠ []
  heads_eq : new.heads = old.heads.filter (·.key ≠ key) ++
    (Table.sorted heads).map fun version => ⟨key, version⟩
  lastCursor_eq : new.lastCursor = old.lastCursor + 1
  headHistory_eq : new.headHistory = old.headHistory ++ [⟨key, old.lastCursor + 1, heads⟩]
  changes_eq : ∃ kind eventMeta recordedAt, new.changes = old.changes ++
    [{ cursor := old.lastCursor + 1, key, kind, headVersionsJson := heads, causalToken
       eventMetaJson := eventMeta, recordedAtUnixMs := recordedAt }]
  scopeFrontier_eq : new.scopeFrontier =
    advanceScopeFrontier key.scopeJson (old.lastCursor + 1) causalToken old.scopeFrontier

/-- The rows of new versions after `publish_entity_versions`; older rows have other names. -/
theorem publishEntityVersions_append {rows : List EntityVersionRow}
    {versions : List StoredEntityVersion} (recordedAt cursor : ℕ)
    (hfresh : ∀ v ∈ versions, ∀ row ∈ rows, ¬ (row.key = key ∧ row.version = v.version)) :
    (rows ++ versions.map (insertedRow key none recordedAt)).map (fun row =>
        if row.key = key ∧ row.version ∈ versions.map (·.version) then
          { row with publishedCursor := some cursor } else row) =
      rows ++ versions.map fun v => publishedRow cursor (insertedRow key none recordedAt v) := by
  rw [List.map_append]
  congr 1
  · refine (List.map_congr_left fun row hrow => ?_).trans (List.map_id _)
    rw [if_neg]
    · rfl
    · rintro ⟨hkey, hname⟩
      obtain ⟨v, hv, hname⟩ := List.mem_map.mp hname
      exact hfresh v hv row hrow ⟨hkey, hname.symm⟩
  · rw [List.map_map]
    refine List.map_congr_left fun v hv => ?_
    simp only [Function.comp_apply, insertedRow, publishedRow]
    rw [if_pos ⟨trivial, List.mem_map_of_mem hv⟩]

/-- **An immediate commit** publishes its heads, with its new versions as published rows. -/
theorem commitEntityInTransaction_spec (hlaw : A.Lawful) (inv : CrdtInv A old)
    {commit : EntityCommit}
    (hgenuine : ∀ v ∈ commit.newVersions, ∀ f ∈ v.crdtFields, ∀ c ∈ f.changes, Genuine A c)
    (h : old.commitEntityInTransaction commit = .ok (.committed, new)) :
    old.publishedHeads commit.key = Table.sorted commit.expectedHeads ∧
    (∃ versions heads changes lastCursor headHistory causalFrontier scopeFrontier sessionFrontier
        crdtChanges crdtParents crdtHeads, new = { old with
      versions, heads, changes, lastCursor, headHistory, causalFrontier, scopeFrontier
      sessionFrontier, crdtChanges, crdtParents, crdtHeads }) ∧
    Publishes old new commit.key commit.headVersions commit.causalToken ∧
    (∃ recordedAt, new.versions = old.versions ++ commit.newVersions.map fun v =>
      publishedRow (old.lastCursor + 1) (insertedRow commit.key none recordedAt v)) ∧
    (∀ version ∈ commit.headVersions, new.HasVersion commit.key version) ∧
    CrdtInv A new ∧ CrdtGrows old new (fun k v => ¬ old.HasVersion k v) ∧
    (∀ v ∈ commit.newVersions, ¬ old.HasVersion commit.key v.version ∧ Storable v) ∧
    (commit.newVersions.map (·.version)).Nodup := by
  simp only [commitEntityInTransaction] at h
  split at h
  · simp at h
  · rename_i hheads
    rw [not_not] at hheads
    obtain ⟨recordedAt, -, h⟩ := Except.bind_eq_ok.mp h
    obtain ⟨mid, hinsert, h⟩ := Except.bind_eq_ok.mp h
    obtain ⟨next, hreplace, h⟩ := Except.bind_eq_ok.mp h
    obtain ⟨⟨cursor, last⟩, hchange, h⟩ := Except.bind_eq_ok.mp h
    simp only [Except.pure_eq_ok, Except.ok.injEq, Prod.mk.injEq, true_and] at h
    obtain ⟨⟨c, p, q, rfl⟩, hinv, hgrows, hnew, hnames⟩ :=
      insertEntityVersions_spec hlaw inv hgenuine hinsert
    obtain ⟨hnodup, hne, hstored, rfl⟩ := replacePublishedHeads_eq_ok.mp hreplace
    obtain ⟨rfl, rfl⟩ := insertChange_eq_ok hchange
    subst h
    have hrows := publishEntityVersions_append recordedAt (old.lastCursor + 1)
      fun v hv row hrow heq => (hnew v hv).1 ⟨row, hrow, heq⟩
    refine ⟨hheads, ⟨_, _, _, _, _, _, _, _, _, _, _, rfl⟩, ⟨hnodup, hne, rfl, rfl, rfl,
      ⟨_, _, _, rfl⟩, rfl⟩, ⟨recordedAt, hrows⟩, ?_, ?_, ⟨hgrows.changes, hgrows.parents,
      hgrows.heads⟩, hnew, hnames⟩
    · intro version hversion
      obtain ⟨row, hrow, hkey, hname⟩ := hstored version hversion
      refine ⟨_, List.mem_map_of_mem hrow, ?_⟩
      split
      · exact ⟨hkey, hname⟩
      · exact ⟨hkey, hname⟩
    · refine ⟨hinv.edges, hinv.determined, fun head hhead => ⟨?_, (hinv.heads head hhead).2⟩⟩
      obtain ⟨row, hrow, hkey, hname⟩ := (hinv.heads head hhead).1
      refine ⟨_, List.mem_map_of_mem hrow, ?_⟩
      split
      · exact ⟨hkey, hname⟩
      · exact ⟨hkey, hname⟩

/-! ### Staging -/

/-- **Staging** appends the new versions as rows of the unit, and replaces its heads of the
entity. -/
theorem stage_spec (hlaw : A.Lawful) (inv : CrdtInv A old) {mid : Db} {unit : String}
    {versions : List StoredEntityVersion} {heads : List String} {recordedAt : ℕ}
    (hgenuine : ∀ v ∈ versions, ∀ f ∈ v.crdtFields, ∀ c ∈ f.changes, Genuine A c)
    (hinsert : old.insertEntityVersions key versions (some unit) recordedAt = .ok mid)
    (hreplace : mid.replaceWorkUnitHeads unit key heads = .ok new) :
    (∃ changes parents crdtHeads, new = { old with
      versions := old.versions ++ versions.map (insertedRow key (some unit) recordedAt)
      unitHeads := (old.unitHeads.filter fun head =>
          ¬ (head.workUnitJson = unit ∧ head.key = key)) ++
        (Table.sorted heads).map fun version => ⟨unit, key, version⟩
      crdtChanges := changes, crdtParents := parents, crdtHeads }) ∧
    heads.Nodup ∧ heads ≠ [] ∧ (old.unitEntity? unit key).isSome ∧
    (∀ version ∈ heads, new.HasVersion key version) ∧
    CrdtInv A new ∧ CrdtGrows old new (fun k v => ¬ old.HasVersion k v) ∧
    (∀ v ∈ versions, ¬ old.HasVersion key v.version ∧ Storable v) ∧
    (versions.map (·.version)).Nodup := by
  obtain ⟨⟨c, p, q, rfl⟩, hinv, hgrows, hnew, hnames⟩ :=
    insertEntityVersions_spec hlaw inv hgenuine hinsert
  obtain ⟨hnodup, hne, hentity, hstored, rfl⟩ := replaceWorkUnitHeads_eq_ok.mp hreplace
  exact ⟨⟨c, p, q, rfl⟩, hnodup, hne, hentity, hstored,
    ⟨hinv.edges, hinv.determined, hinv.heads⟩,
    ⟨hgrows.changes, hgrows.parents, hgrows.heads⟩, hnew, hnames⟩

/-! ### Publishing a unit -/

/-- A row once the unit's versions of an entity were published. -/
def publishStaged (unit : String) (key : EntityKey) (cursor : ℕ) (row : EntityVersionRow) :
    EntityVersionRow :=
  if row.workUnitJson = some unit ∧ row.key = key then publishedRow cursor row else row

@[simp] theorem publishStaged_key (unit : String) (key : EntityKey) (cursor : ℕ)
    (row : EntityVersionRow) : (publishStaged unit key cursor row).key = row.key := by
  unfold publishStaged
  split <;> rfl

@[simp] theorem publishStaged_version (unit : String) (key : EntityKey) (cursor : ℕ)
    (row : EntityVersionRow) : (publishStaged unit key cursor row).version = row.version := by
  unfold publishStaged
  split <;> rfl

/-- **The publication of a staged entity** publishes the unit's heads of it, and all rows of the
unit for it. -/
theorem publishWorkUnitEntity_spec {unit : String} {recordedAt : ℕ}
    (h : publishWorkUnitEntity unit recordedAt old key = .ok new) :
    ∃ causalToken, (∃ e ∈ old.unitEntities, e.workUnitJson = unit ∧ e.key = key ∧
      e.causalToken = some causalToken) ∧
    (∃ heads changes lastCursor headHistory causalFrontier scopeFrontier sessionFrontier,
      new = { old with
        versions := old.versions.map (publishStaged unit key (old.lastCursor + 1))
        heads, changes, lastCursor, headHistory, causalFrontier, scopeFrontier
        sessionFrontier }) ∧
    Publishes old new key (old.directWorkUnitHeads unit key) causalToken ∧
    (∀ version ∈ old.directWorkUnitHeads unit key, old.HasVersion key version) := by
  simp only [publishWorkUnitEntity] at h
  obtain ⟨mid, hreplace, h⟩ := Except.bind_eq_ok.mp h
  obtain ⟨kind, -, h⟩ := Except.bind_eq_ok.mp h
  obtain ⟨hnodup, hne, hstored, rfl⟩ := replacePublishedHeads_eq_ok.mp hreplace
  split at h
  · rename_i causalToken eventMeta sessionKeys _ hentity
    obtain ⟨⟨cursor, last⟩, hchange, h⟩ := Except.bind_eq_ok.mp h
    simp only [Except.pure_eq_ok, Except.ok.injEq] at h
    obtain ⟨rfl, rfl⟩ := insertChange_eq_ok hchange
    subst h
    have hfound := List.find?_some hentity
    simp only [decide_eq_true_eq] at hfound
    exact ⟨causalToken, ⟨_, List.mem_of_find?_eq_some hentity, hfound.1, hfound.2, rfl⟩,
      ⟨_, _, _, _, _, _, _, rfl⟩, ⟨hnodup, hne, rfl, rfl, rfl, ⟨_, _, _, rfl⟩, rfl⟩, hstored⟩
  · cases h

theorem foldlM_insertIdempotency {records : List IdempotencyRecord}
    (h : records.foldlM insertIdempotency old = .ok new) :
    new = { old with idempotency := old.idempotency ++ records } ∧
      (∀ r ∈ records, ∀ row ∈ old.idempotency, row.identityJson ≠ r.identityJson) ∧
      (records.map (·.identityJson)).Nodup := by
  induction records generalizing old with
  | nil =>
    simp only [List.foldlM_nil, Except.pure_eq_ok, Except.ok.injEq] at h
    simp [h]
  | cons record records ih =>
    obtain ⟨next, hnext, hrest⟩ := Except.foldlM_cons_eq_ok.mp h
    simp only [insertIdempotency, Except.bind_eq_ok, require_eq_ok, Except.pure_eq_ok,
      Except.ok.injEq] at hnext
    obtain ⟨_, -, _, hfree, rfl⟩ := hnext
    obtain ⟨rfl, hnew, hnodup⟩ := ih hrest
    refine ⟨by simp, ?_, ?_⟩
    · rw [List.forall_mem_cons]
      exact ⟨hfree, fun r hr row hrow => hnew r hr row (List.mem_append_left _ hrow)⟩
    · rw [List.map_cons, List.nodup_cons]
      refine ⟨fun hmem => ?_, hnodup⟩
      obtain ⟨r, hr, hid⟩ := List.mem_map.mp hmem
      exact hnew r hr record (by simp) hid.symm

/-- The unexpired records of a unit. -/
def unitRecords (db : Db) (unit : String) (recordedAt : ℕ) : List IdempotencyRecord :=
  (db.unitIdempotency.filter fun row =>
    row.workUnitJson = unit ∧ recordedAt < row.record.expiresAtUnixMs).map (·.record)

theorem publishUnitIdempotency_spec {unit : String} {recordedAt : ℕ}
    (h : old.publishUnitIdempotency unit recordedAt = .ok new) :
    new = { old with
      idempotency := old.idempotency ++ old.unitRecords unit recordedAt
      unitIdempotency := old.unitIdempotency.filter (·.workUnitJson ≠ unit) } ∧
      (∀ r ∈ old.unitRecords unit recordedAt, ∀ row ∈ old.idempotency,
        row.identityJson ≠ r.identityJson) ∧
      ((old.unitRecords unit recordedAt).map (·.identityJson)).Nodup := by
  obtain ⟨mid, hfold, h⟩ := Except.bind_eq_ok.mp h
  simp only [Except.pure_eq_ok, Except.ok.injEq] at h
  obtain ⟨rfl, hfree, hnodup⟩ := foldlM_insertIdempotency hfold
  subst h
  exact ⟨rfl, hfree, hnodup⟩

/-! ### Expiry -/

/-- **An expiry** ends the unit and takes everything it staged with it. -/
theorem expireWorkUnit_spec {unit : String} {now : ℕ} (h : old.expireWorkUnit unit now = .ok new) :
    new = collectChanges { old with
      workUnits := old.workUnits.map fun row =>
        if row.identityJson = unit ∧ row.Live then
          { row with state := .expired, closedAtUnixMs := some now }
        else row
      versions := old.versions.filter (·.workUnitJson ≠ some unit)
      unitHeads := old.unitHeads.filter fun head => ¬ old.StagedBy unit head.key head.version
      heads := old.heads.filter fun head => ¬ old.StagedBy unit head.key head.version
      crdtHeads := old.crdtHeads.filter fun head => ¬ old.StagedBy unit head.key head.version
      unitIdempotency := old.unitIdempotency.filter (·.workUnitJson ≠ unit) } ∧
      ∀ base ∈ old.unitBaseVersions, ¬ old.StagedBy unit base.key base.version := by
  obtain ⟨closedAt, hclosedAt, h⟩ := Except.bind_eq_ok.mp h
  have hnow := (sqliteTime_eq_ok.mp hclosedAt).2
  obtain ⟨mid, hdelete, h⟩ := Except.bind_eq_ok.mp h
  simp only [deleteStagedVersions, Except.bind_eq_ok, require_eq_ok, Except.pure_eq_ok,
    Except.ok.injEq] at hdelete h
  obtain ⟨_, hfree, rfl⟩ := hdelete
  subst h hnow
  exact ⟨rfl, hfree⟩

end Db

/-! ### Effects -/

/-- What the engine guarantees of a commit: its heads are new or were expected, one of them is
new, its causal token names a new version, and its CRDT changes are what they say. -/
structure EntityCommit.WellFormed (A : Automerge) (commit : EntityCommit) : Prop where
  heads : ∀ version ∈ commit.headVersions,
    version ∈ commit.newVersions.map (·.version) ∨ version ∈ commit.expectedHeads
  new : ∃ version ∈ commit.headVersions, version ∈ commit.newVersions.map (·.version)
  token : commit.causalToken ∈ commit.newVersions.map (·.version)
  genuine : ∀ v ∈ commit.newVersions, ∀ f ∈ v.crdtFields, ∀ c ∈ f.changes, Genuine A c

/-- What the engine guarantees of a resolution: its heads are new or were among the heads it was
made from, it has a new head or keeps those the unit staged, and its CRDT changes are what they
say. -/
structure WorkUnitResolution.WellFormed (A : Automerge) (resolution : WorkUnitResolution) : Prop where
  heads : ∀ version ∈ resolution.entity.headVersions,
    version ∈ resolution.entity.newVersions.map (·.version) ∨
      version ∈ resolution.entity.expectedHeads ∨ version ∈ resolution.expectedPublishedHeads
  keeps : (∃ version ∈ resolution.entity.headVersions,
      version ∈ resolution.entity.newVersions.map (·.version)) ∨
    ∀ version ∈ resolution.entity.expectedHeads, version ∈ resolution.entity.headVersions
  genuine : ∀ v ∈ resolution.entity.newVersions, ∀ f ∈ v.crdtFields, ∀ c ∈ f.changes, Genuine A c

/-- What is known of the things a call brings in: the versions it adds, the unit it opens, the time
up to which it prunes. -/
structure Known where
  version : EntityKey → StoredEntityVersion → Prop
  unit : WorkUnit → Prop
  retention : ℕ → Prop

/-- Nothing is brought in. Upkeep on this ground opens no unit and prunes nothing. -/
def Known.nothing : Known := ⟨fun _ _ => False, fun _ => False, fun _ => False⟩

/-- Anything is brought in. -/
def Known.anything : Known := ⟨fun _ _ => True, fun _ => True, fun _ => True⟩

open Db in
/-- A unit that is over by the time `latest` expires. -/
inductive Expiry (latest : ℕ) : Db → Db → Prop
  | intro {db db' : Db} {unit : WorkUnitRow} {now : ℕ} (hunit : unit ∈ db.workUnits)
    (hlive : unit.Live) (hover : unit.expiresAtUnixMs ≤ latest)
    (h : db.expireWorkUnit unit.identityJson now = .ok db') : Expiry latest db db'

/-- Some units expire. -/
abbrev Expiries (latest : ℕ) : Db → Db → Prop := Relation.ReflTransGen (Expiry latest)

theorem Expiries.mono {latest latest' : ℕ} (hle : latest ≤ latest') {old new : Db}
    (h : Expiries latest old new) : Expiries latest' old new :=
  Relation.ReflTransGen.mono (fun _ _ ⟨hunit, hlive, hover, h⟩ =>
    .intro hunit hlive (hover.trans hle) h) _ _ h

open Db in
/-- What is done on the way: bookkeeping, expired units, new units, captured entities. -/
inductive Upkeep (K : Known) : Db → Db → Prop
  | sessions (db : Db) (scope : String) (consistency : ReadConsistency) (frontier : ℕ)
    (hfrontier : frontier ≤ db.currentScopeCursor scope) :
    Upkeep K db (db.advanceReadSessions scope consistency frontier)
  | forget (db : Db) (now : ℕ) :
    Upkeep K db { db with
      idempotency := db.idempotency.filter (now < ·.expiresAtUnixMs)
      unitIdempotency := db.unitIdempotency.filter (now < ·.record.expiresAtUnixMs) }
  | note (db : Db) (retainedAfter : ℕ) (hretention : K.retention retainedAfter) :
    Upkeep K db (db.recordRetention retainedAfter)
  | prune (db : Db) (retainedAfter : ℕ) (hretention : K.retention retainedAfter)
    (hnoted : ∀ change ∈ db.changes, change.recordedAtUnixMs < retainedAfter →
      change.cursor ≤ db.prunedThrough change.key.scopeJson) :
    Upkeep K db (db.deleteOverdueChanges retainedAfter)
  | expire {db db' : Db} {latest : ℕ} (h : Expiry latest db db') : Upkeep K db db'
  | openUnit (db : Db) (workUnit : WorkUnit) (now expires : ℕ) (hunit : K.unit workUnit)
    (hnew : db.workUnit? workUnit.identityJson = none) :
    Upkeep K db (db.openWorkUnit workUnit now expires)
  | capture {db db' : Db} {unit : WorkUnitRow} {key : EntityKey} (hunit : unit ∈ db.workUnits)
    (hopen : unit.state = .opened) (hscope : unit.scopeJson = key.scopeJson)
    (h : db.captureWorkUnitEntity unit.identityJson key = .ok db') :
    Upkeep K db db'

/-- Some upkeep. -/
abbrev Upkeeps (K : Known) : Db → Db → Prop := Relation.ReflTransGen (Upkeep K)

theorem Expiries.upkeeps (K : Known) {latest : ℕ} {old new : Db} (h : Expiries latest old new) :
    Upkeeps K old new :=
  Relation.ReflTransGen.mono (fun _ _ => Upkeep.expire) _ _ h

open Db in
/-- The effects of transactions on the tables. -/
inductive Effect (A : Automerge) (K : Known) : Db → Db → Prop
  | upkeep {db db' : Db} (h : Upkeep K db db') : Effect A K db db'
  | commit {db db' : Db} {entity : EntityCommit} (hformed : entity.WellFormed A)
    (hadded : ∀ v ∈ entity.newVersions, K.version entity.key v)
    (h : db.commitEntityInTransaction entity = .ok (.committed, db')) :
    Effect A K db db'
  | record {db db' : Db} {record : IdempotencyRecord}
    (hfree : db.unitIdempotency? record.identityJson = none)
    (h : db.insertIdempotency record = .ok db') :
    Effect A K db db'
  | stage {db db' : Db} {unit : WorkUnitRow} {staged : WorkUnitCommit} {recordedAt : ℕ}
    (hunit : unit ∈ db.workUnits) (hid : staged.workUnit.identityJson = unit.identityJson)
    (hopen : unit.state = .opened) (hformed : staged.entity.WellFormed A)
    (hadded : ∀ v ∈ staged.entity.newVersions, K.version staged.entity.key v)
    (hheads : db.workUnitHeads unit.identityJson staged.entity.key =
      Table.sorted staged.entity.expectedHeads)
    (h : (db.recordStagedMutation staged).stageMutation staged recordedAt = .ok db') :
    Effect A K db db'
  | stageRecord {db db' : Db} {unit : WorkUnitRow} {record : IdempotencyRecord}
    (hunit : unit ∈ db.workUnits) (hlive : unit.Live)
    (hfree : db.idempotency? record.identityJson = none)
    (h : db.insertWorkUnitIdempotency unit.identityJson record = .ok db') :
    Effect A K db db'
  | close (db : Db) (identity : String) : Effect A K db (db.markClosing identity)
  | resolve {db mid db' : Db} {unit : WorkUnitRow} {key : EntityKey}
    {versions : List StoredEntityVersion} {heads : List String} {recordedAt : ℕ}
    (hunit : unit ∈ db.workUnits) (hclosing : unit.state = .closing)
    (hheads : ∀ version ∈ heads, version ∈ versions.map (·.version) ∨
      version ∈ db.directWorkUnitHeads unit.identityJson key ∨ version ∈ db.publishedHeads key)
    (hnew : ∃ version ∈ heads, version ∈ versions.map (·.version) ∨
      db.StagedBy unit.identityJson key version)
    (hgenuine : ∀ v ∈ versions, ∀ f ∈ v.crdtFields, ∀ c ∈ f.changes, Genuine A c)
    (hadded : ∀ v ∈ versions, K.version key v)
    (hinsert : db.insertEntityVersions key versions (some unit.identityJson) recordedAt = .ok mid)
    (h : mid.replaceWorkUnitHeads unit.identityJson key heads = .ok db') :
    Effect A K db db'
  | publish {db db' : Db} {unit : WorkUnitRow} {recordedAt : ℕ} (hunit : unit ∈ db.workUnits)
    (hclosing : unit.state = .closing)
    (h : db.finishWorkUnitPublication unit.identityJson recordedAt = .ok db') :
    Effect A K db db'

/-- Some effects, one after the other. -/
abbrev Effects (A : Automerge) (K : Known) : Db → Db → Prop :=
  Relation.ReflTransGen (Effect A K)

theorem Upkeeps.effects {A : Automerge} {K : Known} {old new : Db}
    (h : Upkeeps K old new) : Effects A K old new :=
  Relation.ReflTransGen.mono (fun _ _ => Effect.upkeep) _ _ h

end Patchouli
