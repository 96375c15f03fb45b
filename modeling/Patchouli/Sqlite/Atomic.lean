import Patchouli.Sqlite.Publish

/-!
# All or nothing

A call that fails or declines leaves the tables as they were, but for the units that were over: its
transaction rolls back, or commits nothing but an expiry. Only a commit that met publication
conflicts leaves something of itself, its unit's staged work.

`SamePublished` says that what is published is the same, `SamePrivate` that a unit is, with all it
keeps to itself. An expiry keeps both, except for the unit that expires.

## Main definitions

* `Db.SamePublished`, `Db.SamePrivate`
* `Db.OnlyExpired` — nothing happened but the expiry of units that were over
* `Db.OnlyUnit` — nothing happened but to one unit

## Main results

* `Expiries.onlyExpired` — what expiries leave alone
* `StagedIn.onlyUnit` — what staging leaves alone
-/

namespace Patchouli

open Db Relation

variable {A : Automerge} {old mid new : Db} {key : EntityKey} {unit : String}

namespace Db

/-! ### What stays the same -/

/-- What is published is the same. -/
structure SamePublished (old new : Db) : Prop where
  heads : new.heads = old.heads
  headHistory : new.headHistory = old.headHistory
  changes : new.changes = old.changes
  lastCursor : new.lastCursor = old.lastCursor
  changeRetention : new.changeRetention = old.changeRetention
  sessionFrontier : new.sessionFrontier = old.sessionFrontier
  causalFrontier : new.causalFrontier = old.causalFrontier
  scopeFrontier : new.scopeFrontier = old.scopeFrontier
  versions : ∀ r : EntityVersionRow, r.workUnitJson = none → (r ∈ new.versions ↔ r ∈ old.versions)

/-- The published versions read the same CRDT fields. -/
def SameFields (old new : Db) : Prop :=
  ∀ r ∈ old.versions, r.workUnitJson = none →
    new.readCrdtFields r.key r.version = old.readCrdtFields r.key r.version

/-- A unit is the same, with all it keeps to itself. -/
structure SamePrivate (id : String) (old new : Db) : Prop where
  units : ∀ u : WorkUnitRow, u.identityJson = id → (u ∈ new.workUnits ↔ u ∈ old.workUnits)
  versions : ∀ r : EntityVersionRow, r.workUnitJson = some id →
    (r ∈ new.versions ↔ r ∈ old.versions)
  entities : ∀ e : WorkUnitEntityRow, e.workUnitJson = id →
    (e ∈ new.unitEntities ↔ e ∈ old.unitEntities)
  bases : ∀ b : WorkUnitBaseVersionRow, b.workUnitJson = id →
    (b ∈ new.unitBaseVersions ↔ b ∈ old.unitBaseVersions)
  heads : ∀ h : WorkUnitHeadRow, h.workUnitJson = id → (h ∈ new.unitHeads ↔ h ∈ old.unitHeads)
  records : ∀ r : WorkUnitIdempotencyRow, r.workUnitJson = id →
    (r ∈ new.unitIdempotency ↔ r ∈ old.unitIdempotency)

/-- Nothing happened but the expiry of units that are over by `latest`. -/
structure OnlyExpired (latest : ℕ) (old new : Db) : Prop where
  expiries : Expiries latest old new
  published : SamePublished old new
  fields : SameFields old new
  records : new.idempotency = old.idempotency
  others : ∀ id, (∀ u ∈ old.workUnits, u.identityJson = id → u.Live → latest < u.expiresAtUnixMs) →
    SamePrivate id old new

/-- Nothing happened but to one unit. -/
structure OnlyUnit (unit : String) (old new : Db) : Prop where
  published : SamePublished old new
  records : new.idempotency = old.idempotency
  others : ∀ id, id ≠ unit → SamePrivate id old new

theorem SamePublished.refl (db : Db) : SamePublished db db :=
  ⟨rfl, rfl, rfl, rfl, rfl, rfl, rfl, rfl, fun _ _ => Iff.rfl⟩

theorem SamePublished.trans (h : SamePublished old mid) (h' : SamePublished mid new) :
    SamePublished old new :=
  ⟨h'.heads.trans h.heads, h'.headHistory.trans h.headHistory, h'.changes.trans h.changes,
    h'.lastCursor.trans h.lastCursor, h'.changeRetention.trans h.changeRetention,
    h'.sessionFrontier.trans h.sessionFrontier, h'.causalFrontier.trans h.causalFrontier,
    h'.scopeFrontier.trans h.scopeFrontier,
    fun r hr => (h'.versions r hr).trans (h.versions r hr)⟩

theorem SamePrivate.refl (id : String) (db : Db) : SamePrivate id db db :=
  ⟨fun _ _ => Iff.rfl, fun _ _ => Iff.rfl, fun _ _ => Iff.rfl, fun _ _ => Iff.rfl,
    fun _ _ => Iff.rfl, fun _ _ => Iff.rfl⟩

theorem SamePrivate.trans {id : String} (h : SamePrivate id old mid) (h' : SamePrivate id mid new) :
    SamePrivate id old new :=
  ⟨fun u hu => (h'.units u hu).trans (h.units u hu),
    fun r hr => (h'.versions r hr).trans (h.versions r hr),
    fun e he => (h'.entities e he).trans (h.entities e he),
    fun b hb => (h'.bases b hb).trans (h.bases b hb),
    fun x hx => (h'.heads x hx).trans (h.heads x hx),
    fun r hr => (h'.records r hr).trans (h.records r hr)⟩

theorem OnlyExpired.refl (latest : ℕ) (db : Db) : OnlyExpired latest db db :=
  ⟨.refl, .refl db, fun _ _ _ => rfl, rfl, fun id _ => .refl id db⟩

end Db

/-! ### Expiries -/

/-- An expiry leaves what is published alone, and every other unit. -/
theorem Expiry.onlyExpired {latest : ℕ} (inv : Inv A old) (h : Expiry latest old new) :
    OnlyExpired latest old new := by
  have hexpiry := h
  obtain ⟨hunit, hlive, hover, hexpire⟩ := h
  rename_i unit now
  have hfields := (inv.expire hunit hlive hexpire).2.fields
  obtain ⟨heq, -⟩ := expireWorkUnit_spec hexpire
  have hheads : new.heads = old.heads := by
    have hfilter : new.heads = old.heads.filter fun head =>
        ¬ old.StagedBy unit.identityJson head.key head.version := by
      rw [heq]
      rfl
    rw [hfilter]
    refine List.filter_eq_self.mpr fun head hhead => ?_
    rw [decide_eq_true_eq]
    exact inv.not_stagedBy_published (inv.published.isPublished hhead)
  have hversions : ∀ r : EntityVersionRow, r ∈ new.versions ↔
      r ∈ old.versions ∧ r.workUnitJson ≠ some unit.identityJson := by
    intro r
    rw [heq]
    simp [collectChanges]
  refine ⟨.single hexpiry, ⟨hheads, ?_, ?_, ?_, ?_, ?_, ?_, ?_, ?_⟩, hfields, ?_, ?_⟩
  · rw [heq]
    rfl
  · rw [heq]
    rfl
  · rw [heq]
    rfl
  · rw [heq]
    rfl
  · rw [heq]
    rfl
  · rw [heq]
    rfl
  · rw [heq]
    rfl
  · intro r hr
    rw [hversions]
    exact and_iff_left (by simp [hr])
  · rw [heq]
    rfl
  · intro id hid
    have hne : id ≠ unit.identityJson := by
      rintro rfl
      exact absurd (hid unit hunit rfl hlive) (Nat.not_lt.mpr hover)
    refine ⟨fun u hu => ?_, fun r hr => ?_, fun e _ => ?_, fun b _ => ?_, fun x hx => ?_,
      fun r hr => ?_⟩
    · rw [heq]
      simp only [collectChanges, List.mem_map]
      constructor
      · rintro ⟨u', hu', rfl⟩
        split at hu
        · rename_i hsame
          exact absurd (hu.symm.trans hsame.1) hne
        · rename_i hother
          rw [if_neg hother]
          exact hu'
      · intro hold
        exact ⟨u, hold, if_neg fun hsame => hne (hu.symm.trans hsame.1)⟩
    · rw [hversions]
      refine and_iff_left ?_
      rw [hr]
      exact fun hsame => hne (Option.some.inj hsame)
    · rw [heq]
      rfl
    · rw [heq]
      rfl
    · rw [heq]
      simp only [collectChanges, List.mem_filter, decide_eq_true_eq]
      refine and_iff_left_of_imp fun hmem => ?_
      obtain ⟨r, hr, hkey, hname, hown⟩ := inv.staging.headVersions x hmem
      rw [← hkey, ← hname]
      refine inv.staging.not_stagedBy hr fun hsome => ?_
      rw [hsome] at hown
      rcases hown with hown | hown
      · exact hne (hx.symm.trans (Option.some.inj hown).symm)
      · cases hown
    · rw [heq]
      simp only [collectChanges, List.mem_filter, decide_eq_true_eq]
      exact and_iff_left fun hsame => hne (hr.symm.trans hsame)

theorem Expiries.onlyExpired {latest : ℕ} (inv : Inv A old) (h : Expiries latest old new) :
    OnlyExpired latest old new := by
  induction h with
  | refl => exact .refl latest old
  | @tail between last hbefore hstep ih =>
    have hinv := (Expiries.keeps inv hbefore).1
    have hlast := Expiry.onlyExpired hinv hstep
    refine ⟨hbefore.tail hstep, ih.published.trans hlast.published, fun r hr hnone => ?_,
      hlast.records.trans ih.records, fun id hid => ?_⟩
    · rw [hlast.fields r ((ih.published.versions r hnone).mpr hr) hnone, ih.fields r hr hnone]
    · have hsame := ih.others id hid
      refine hsame.trans (hlast.others id fun u hu huid hlive => ?_)
      exact hid u ((hsame.units u huid).mp hu) huid hlive

/-! ### Staging -/

/-- The fields of a version, whatever they hold, touch the CRDT tables only. -/
theorem foldlM_insertCrdtField_frame {version : String} {fields : List StoredCrdtField}
    (h : fields.foldlM (insertCrdtField key version) old = .ok new) :
    ∃ crdtChanges crdtParents crdtHeads, new = { old with crdtChanges, crdtParents, crdtHeads } :=
  Except.foldlM_rel
    (R := fun a b : Db => ∃ crdtChanges crdtParents crdtHeads,
      b = { a with crdtChanges, crdtParents, crdtHeads })
    (fun a => ⟨_, _, _, rfl⟩)
    (by rintro a b c ⟨_, _, _, rfl⟩ ⟨crdtChanges, crdtParents, crdtHeads, rfl⟩
        exact ⟨crdtChanges, crdtParents, crdtHeads, rfl⟩)
    (fun a field _ b hfield => by
      obtain ⟨extra, hchanges, -⟩ := foldl_insertCrdtChange field.changes a
      obtain ⟨linked, hparents, hheads⟩ := Except.bind_eq_ok.mp hfield
      rw [hchanges] at hparents
      obtain ⟨⟨edges, rfl, -⟩, -⟩ := foldlM_insertCrdtParent hparents
      obtain ⟨heads, rfl, -⟩ := foldlM_insertCrdtHead hheads
      exact ⟨_, _, _, rfl⟩) h

/-- An insertion, whatever it inserts, adds rows of its unit for its entity, and CRDT rows. -/
theorem insertEntityVersions_frame {versions : List StoredEntityVersion} {workUnit : Option String}
    {recordedAt : ℕ} (h : old.insertEntityVersions key versions workUnit recordedAt = .ok new) :
    ∃ added crdtChanges crdtParents crdtHeads, new = { old with
        versions := old.versions ++ added, crdtChanges, crdtParents, crdtHeads } ∧
      (∀ r ∈ added, r.workUnitJson = workUnit) ∧
      ∀ r ∈ added, r.key = key ∧ key.entityType ≠ "" ∧ key.entityId ≠ "" := by
  refine Except.foldlM_rel
    (R := fun a b => ∃ added crdtChanges crdtParents crdtHeads, b = { a with
        versions := a.versions ++ added, crdtChanges, crdtParents, crdtHeads } ∧
      (∀ r ∈ added, r.workUnitJson = workUnit) ∧
      ∀ r ∈ added, r.key = key ∧ key.entityType ≠ "" ∧ key.entityId ≠ "")
    (fun a => ⟨[], _, _, _, by simp; rfl, by simp, by simp⟩) ?_ (fun a version _ b hturn => ?_) h
  · rintro a b c ⟨added, _, _, _, rfl, hunit, hkey⟩ ⟨added', crdtChanges, crdtParents, crdtHeads,
      rfl, hunit', hkey'⟩
    refine ⟨added ++ added', crdtChanges, crdtParents, crdtHeads, by simp, fun r hr => ?_,
      fun r hr => ?_⟩
    · exact (List.mem_append.mp hr).elim (hunit r) (hunit' r)
    · exact (List.mem_append.mp hr).elim (hkey r) (hkey' r)
  · obtain ⟨row, hrow, hfields⟩ := Except.bind_eq_ok.mp hturn
    simp only [insertVersion, Except.bind_eq_ok, require_eq_ok, Except.pure_eq_ok,
      Except.ok.injEq] at hrow
    obtain ⟨_, hnames, _, -, _, -, _, -, rfl⟩ := hrow
    obtain ⟨crdtChanges, crdtParents, crdtHeads, rfl⟩ := foldlM_insertCrdtField_frame hfields
    exact ⟨_, crdtChanges, crdtParents, crdtHeads, rfl, by simp,
      by simpa using ⟨hnames.1, hnames.2.1⟩⟩

/-- Capturing adds rows of the unit. -/
theorem captureWorkUnitEntity_frame (h : old.captureWorkUnitEntity unit key = .ok new) :
    ∃ entities bases, new = { old with unitEntities := old.unitEntities ++ entities
                                       unitBaseVersions := old.unitBaseVersions ++ bases } ∧
      (∀ e ∈ entities, e.workUnitJson = unit) ∧ ∀ b ∈ bases, b.workUnitJson = unit := by
  unfold Db.captureWorkUnitEntity at h
  split at h
  · rw [Except.ok.injEq] at h
    exact ⟨[], [], by simp [h], by simp, by simp⟩
  · split at h
    · cases h
    · rename_i row _
      rw [Except.ok.injEq] at h
      refine ⟨_, _, h.symm, by simp, fun b hb => ?_⟩
      obtain ⟨r, -, rfl⟩ := List.mem_map.mp hb
      rfl

/-- What is left of the records, and those that a commit stages. -/
theorem RecordStaged.frame {entity : WorkUnitCommit} (h : RecordStaged entity old new) :
    ∃ forgotten extra, (forgotten = old ∨
        old.deleteOverdueIdempotency entity.workUnit.nowUnixMs = .ok forgotten) ∧
      new = { forgotten with unitIdempotency := forgotten.unitIdempotency ++ extra } ∧
      ∀ r ∈ extra, r.workUnitJson = entity.workUnit.identityJson := by
  cases h with
  | unkeyed => exact ⟨old, [], Or.inl rfl, by simp, by simp⟩
  | known _ _ hforget => exact ⟨new, [], Or.inr hforget, by simp, by simp⟩
  | stored _ hforget _ hinsert =>
    exact ⟨_, _, Or.inr hforget, insertWorkUnitIdempotency_eq hinsert, by simp⟩

/-- A row of one unit is not a row of another. -/
theorem mem_append_of_ne {α β : Type*} {f : α → β} {rows added : List α} {id unit : β}
    (hadded : ∀ r ∈ added, f r = unit) (hne : id ≠ unit) {r : α} (hr : f r = id) :
    r ∈ rows ++ added ↔ r ∈ rows := by
  rw [List.mem_append]
  exact or_iff_left fun hmem => hne (hr.symm.trans (hadded r hmem))

/-- Staging in an open unit happens to that unit only, but for the records it forgets. -/
theorem StagedIn.onlyUnit {entity : WorkUnitCommit} (h : StagedIn entity old new) :
    ∃ forgotten, (forgotten = old ∨
        old.deleteOverdueIdempotency entity.workUnit.nowUnixMs = .ok forgotten) ∧
      OnlyUnit entity.workUnit.identityJson forgotten new := by
  obtain ⟨hunit, hid, huscope, hopen, hcapture, hheads, hstage, hrecord⟩ := h
  rename_i row captured staged recordedAt
  rw [← hid] at hcapture
  obtain ⟨entities, bases, rfl, hentities, hbases⟩ := captureWorkUnitEntity_frame hcapture
  obtain ⟨inserted, hinsert, hreplace⟩ := Except.bind_eq_ok.mp hstage
  obtain ⟨added, crdtChanges, crdtParents, crdtHeads, rfl, hadded, -⟩ :=
    insertEntityVersions_frame hinsert
  obtain ⟨-, -, -, -, rfl⟩ := replaceWorkUnitHeads_eq_ok.mp hreplace
  obtain ⟨forgotten, extra, hforgotten, rfl, hextra⟩ := (stageIdempotency_none hrecord).frame
  have hrows : ∀ (records : List IdempotencyRecord) (unitRecords : List WorkUnitIdempotencyRow),
      OnlyUnit entity.workUnit.identityJson
        { old with idempotency := records, unitIdempotency := unitRecords }
        { old with
          idempotency := records
          unitIdempotency := unitRecords ++ extra
          versions := old.versions ++ added
          unitHeads := (old.unitHeads.filter fun head =>
              ¬ (head.workUnitJson = entity.workUnit.identityJson ∧
                head.key = entity.entity.key)) ++
            (Table.sorted entity.entity.headVersions).map fun version =>
              ⟨entity.workUnit.identityJson, entity.entity.key, version⟩
          unitEntities := (old.unitEntities ++ entities).map fun row =>
            if row.workUnitJson = entity.workUnit.identityJson ∧ row.key = entity.entity.key then
              { row with
                conflictPolicyJson := some entity.conflictPolicyJson
                causalToken := some entity.entity.causalToken
                eventMetaJson := some entity.entity.eventMetaJson
                writeSessionKeysJson := some entity.entity.writeSessionKeys
                closeMarker := row.closeMarker || entity.close }
            else row
          unitBaseVersions := old.unitBaseVersions ++ bases
          crdtChanges, crdtParents, crdtHeads } := by
    intro records unitRecords
    refine ⟨⟨rfl, rfl, rfl, rfl, rfl, rfl, rfl, rfl, fun r hr => ?_⟩, rfl, fun id hne => ?_⟩
    · exact mem_append_of_ne hadded (by simp) hr
    · refine ⟨fun _ _ => Iff.rfl, fun r hr => ?_, fun e he => ?_, fun b hb => ?_, fun x hx => ?_,
        fun r hr => ?_⟩
      · exact mem_append_of_ne hadded (fun hsame => hne (Option.some.inj hsame)) hr
      · simp only [List.mem_map]
        constructor
        · rintro ⟨e', he', rfl⟩
          split at he
          · rename_i hsame
            exact absurd (he.symm.trans hsame.1) hne
          · rename_i hother
            rw [if_neg hother]
            exact (mem_append_of_ne hentities hne he).mp he'
        · intro hold
          exact ⟨e, List.mem_append_left _ hold, if_neg fun hsame => hne (he.symm.trans hsame.1)⟩
      · exact mem_append_of_ne hbases hne hb
      · rw [StagingInv.mem_replaced]
        constructor
        · rintro (⟨hold, -⟩ | ⟨hown, -⟩)
          · exact hold
          · exact absurd (hx.symm.trans hown) hne
        · exact fun hold => Or.inl ⟨hold, fun hsame => hne (hx.symm.trans hsame.1)⟩
      · exact mem_append_of_ne hextra hne hr
  rcases hforgotten with rfl | hforget
  · exact ⟨old, Or.inl rfl, hrows old.idempotency old.unitIdempotency⟩
  · obtain ⟨hlt, rfl⟩ := deleteOverdueIdempotency_eq_ok.mp hforget
    exact ⟨_, Or.inr (deleteOverdueIdempotency_eq_ok.mpr ⟨hlt, rfl⟩), hrows _ _⟩

/-- A unit that is closing is the only one that changes. -/
theorem markClosing_onlyUnit (db : Db) (unit : String) : OnlyUnit unit db (db.markClosing unit) := by
  refine ⟨⟨rfl, rfl, rfl, rfl, rfl, rfl, rfl, rfl, fun _ _ => Iff.rfl⟩, rfl, fun id hne => ?_⟩
  refine ⟨fun u hu => ?_, fun _ _ => Iff.rfl, fun _ _ => Iff.rfl, fun _ _ => Iff.rfl,
    fun _ _ => Iff.rfl, fun _ _ => Iff.rfl⟩
  simp only [markClosing, List.mem_map]
  constructor
  · rintro ⟨u', hu', rfl⟩
    split at hu
    · rename_i hsame
      exact absurd (hu.symm.trans hsame.1) hne
    · rename_i hother
      rw [if_neg hother]
      exact hu'
  · exact fun hold => ⟨u, hold, if_neg fun hsame => hne (hu.symm.trans hsame.1)⟩

theorem openWorkUnit_onlyUnit (db : Db) (workUnit : WorkUnit) (now expires : ℕ) :
    OnlyUnit workUnit.identityJson db (db.openWorkUnit workUnit now expires) := by
  refine ⟨⟨rfl, rfl, rfl, rfl, rfl, rfl, rfl, rfl, fun _ _ => Iff.rfl⟩, rfl, fun id hne => ?_⟩
  refine ⟨fun u hu => mem_append_of_ne (f := WorkUnitRow.identityJson) (by simp) hne hu,
    fun _ _ => Iff.rfl, fun _ _ => Iff.rfl, fun _ _ => Iff.rfl, fun _ _ => Iff.rfl,
    fun _ _ => Iff.rfl⟩

theorem Db.OnlyUnit.trans (h : OnlyUnit unit old mid) (h' : OnlyUnit unit mid new) :
    OnlyUnit unit old new :=
  ⟨h.published.trans h'.published, h'.records.trans h.records,
    fun id hne => (h.others id hne).trans (h'.others id hne)⟩

/-- Staging, with the unit opened for it. -/
theorem StagedIn.onlyUnit_ensured {swept base : Db} {entity : WorkUnitCommit}
    (hensured : Ensured swept entity.workUnit .opened base) (h : StagedIn entity base new) :
    ∃ forgotten, (forgotten = swept ∨
        swept.deleteOverdueIdempotency entity.workUnit.nowUnixMs = .ok forgotten) ∧
      OnlyUnit entity.workUnit.identityJson forgotten new := by
  obtain ⟨forgotten, hforgotten, honly⟩ := h.onlyUnit
  cases hensured with
  | opened => exact ⟨forgotten, hforgotten, honly⟩
  | created =>
    rcases hforgotten with rfl | hforget
    · exact ⟨swept, Or.inl rfl, (openWorkUnit_onlyUnit swept _ _ _).trans honly⟩
    · obtain ⟨hlt, rfl⟩ := deleteOverdueIdempotency_eq_ok.mp hforget
      exact ⟨_, Or.inr (deleteOverdueIdempotency_eq_ok.mpr ⟨hlt, rfl⟩),
        (openWorkUnit_onlyUnit _ entity.workUnit _ _).trans honly⟩

/-- Staging genuine changes leaves the fields of published versions alone. -/
theorem StagedIn.sameFields (hlaw : A.Lawful) (inv : CrdtInv A old) {entity : WorkUnitCommit}
    (hgenuine : ∀ v ∈ entity.entity.newVersions, ∀ f ∈ v.crdtFields, ∀ c ∈ f.changes, Genuine A c)
    (h : StagedIn entity old new) : SameFields old new := by
  obtain ⟨hunit, hid, huscope, hopen, hcapture, hheads, hstage, hrecord⟩ := h
  rename_i row captured staged recordedAt
  obtain ⟨unitEntities, unitBaseVersions, rfl⟩ := captureWorkUnitEntity_eq hcapture
  obtain ⟨inserted, hinsert, hreplace⟩ := Except.bind_eq_ok.mp hstage
  have hcrdt : CrdtInv A (Db.recordStagedMutation { old with unitEntities, unitBaseVersions }
      entity) := inv.congr (fun _ _ h => h) rfl rfl rfl
  obtain ⟨-, -, -, -, -, -, hgrows, -⟩ := stage_spec hlaw hcrdt hgenuine hinsert hreplace
  obtain ⟨_, _, rfl⟩ := (stageIdempotency_none hrecord).eq
  intro r hr _
  have hsame : staged.readCrdtFields r.key r.version = (Db.recordStagedMutation
      { old with unitEntities, unitBaseVersions } entity).readCrdtFields r.key r.version :=
    readCrdtFields_of_grows hcrdt hgrows fun hnot => hnot ⟨r, hr, rfl, rfl⟩
  exact hsame

end Patchouli
