import Patchouli.Sqlite.Closing
import Patchouli.Sqlite.UnitHeads

/-!
# Commits nobody came before

A commit compares the heads it expects with the heads there are, and a commit that closes its unit
compares the published heads of the entities of the unit with those of its baseline. Where both
agree, the commit is not refused over versions, and if it is accepted its versions are stored.

## Main definitions

* `Db.Undisturbed` — nobody published an entity of a unit since the unit was opened

## Main results

* `commitEntity_conflict`, `commitEntityIdempotent_conflict`, `commitEntityInWorkUnit_conflict`
* `WorkUnitCommitted.not_publicationConflict`
* `WorkUnitCommitted.stores` — what an accepted commit stores
-/

namespace Patchouli

open Db Relation

variable {A : Automerge} {K : Known} {old new : Db} {unit : String} {key : EntityKey} {clock : Clock}

/-! ### Immediate commits -/

theorem Db.SamePublished.publishedHeads_eq (h : SamePublished old new) (key : EntityKey) :
    new.publishedHeads key = old.publishedHeads key := by
  rw [publishedHeads, publishedHeads, h.heads]

theorem commitEntityInTransaction_conflict {entity : EntityCommit} {heads : List String}
    (h : old.commitEntityInTransaction entity = .ok (.conflict heads, new)) :
    old.publishedHeads entity.key ≠ Table.sorted entity.expectedHeads := by
  simp only [commitEntityInTransaction] at h
  split at h
  · assumption
  · obtain ⟨_, -, h⟩ := Except.bind_eq_ok.mp h
    obtain ⟨_, -, h⟩ := Except.bind_eq_ok.mp h
    obtain ⟨_, -, h⟩ := Except.bind_eq_ok.mp h
    obtain ⟨⟨_, _⟩, -, h⟩ := Except.bind_eq_ok.mp h
    simp at h

/-- A commit is a conflict only if the heads are not the expected ones. -/
theorem commitEntity_conflict (inv : Inv A old) {entity : EntityCommit} {heads : List String}
    (h : (commitEntity old clock entity).outcome = .ok (.conflict heads)) :
    old.publishedHeads entity.key ≠ Table.sorted entity.expectedHeads := by
  obtain ⟨swept, hswept, hcall, -⟩ := sweepThen_eq_ok inv h
  obtain ⟨committed, hbody, -⟩ := transaction_eq_ok hcall
  rw [← (Expiries.onlyExpired inv hswept.expiries).published.publishedHeads_eq]
  split at hbody
  · cases hbody
  · obtain ⟨⟨outcome, next⟩, hcommit, hbody⟩ := Except.bind_eq_ok.mp hbody
    cases outcome with
    | committed => simp [commitBeforeDeadline_eq_ok] at hbody
    | conflict currentHeads => exact commitEntityInTransaction_conflict hcommit

theorem commitEntityIdempotent_conflict {entity : EntityCommit} {record : IdempotencyRecord}
    {now : ℕ} {heads : List String}
    (h : (commitEntityIdempotent old clock entity record now).outcome =
      .ok (.entityConflict heads)) :
    old.publishedHeads entity.key ≠ Table.sorted entity.expectedHeads := by
  obtain ⟨committed, hbody, -⟩ := transaction_eq_ok h
  obtain ⟨forgotten, hforget, hbody⟩ := Except.bind_eq_ok.mp hbody
  obtain ⟨now, -, hforget⟩ := Except.bind_eq_ok.mp hforget
  rw [Except.pure_eq_ok, Except.ok.injEq] at hforget
  split at hbody
  · simp only [rollback_eq_ok, Finished.mk.injEq] at hbody
    obtain ⟨hvalue, -⟩ := hbody
    split at hvalue <;> cases hvalue
  · split at hbody
    · simp at hbody
    · obtain ⟨⟨outcome, next⟩, hcommit, hbody⟩ := Except.bind_eq_ok.mp hbody
      cases outcome with
      | committed =>
        obtain ⟨recorded, -, hbody⟩ := Except.bind_eq_ok.mp hbody
        simp [commitBeforeDeadline_eq_ok] at hbody
      | conflict currentHeads =>
        have := commitEntityInTransaction_conflict hcommit
        rw [← hforget] at this
        exact this

/-! ### Commits in a unit -/

/-- Nobody published an entity of the unit since the unit was opened. -/
def Db.Undisturbed (db : Db) (unit : String) : Prop :=
  ∀ e ∈ db.unitEntities, e.workUnitJson = unit →
    db.publishedHeads e.key = db.workUnitBaseHeads unit e.key

instance (db : Db) (unit : String) : Decidable (db.Undisturbed unit) :=
  inferInstanceAs (Decidable (∀ e ∈ db.unitEntities, e.workUnitJson = unit →
    db.publishedHeads e.key = db.workUnitBaseHeads unit e.key))

/-- Nobody is closing the unit. -/
def Db.NotClosing (db : Db) (unit : String) : Prop :=
  ∀ u ∈ db.workUnits, u.identityJson = unit → u.state ≠ .closing

instance (db : Db) (unit : String) : Decidable (db.NotClosing unit) :=
  inferInstanceAs (Decidable (∀ u ∈ db.workUnits, u.identityJson = unit → u.state ≠ .closing))

/-- A unit that has an entity and is not closing is found open, as it was, or not at all. -/
theorem Ensured.of_captured (inv : Inv A old) {swept base : Db} {workUnit : WorkUnit}
    {state : StoredWorkUnitState} (hcaptured : old.Captured workUnit.identityJson key)
    (hnot : old.NotClosing workUnit.identityJson)
    (hswept : Swept clock.sweep old swept) (hensured : Ensured swept workUnit state base)
    (hstate : state = .opened ∨ state = .closing) :
    state = .opened ∧ base = swept ∧ SamePrivate workUnit.identityJson old swept := by
  obtain ⟨e, he, hid, -⟩ := hcaptured
  obtain ⟨u, hu, huid, -⟩ := inv.staging.entityUnits e he
  rw [hid] at huid
  have inv' := (Expiries.keeps inv hswept.expiries).1
  have hrow := workUnit?_of_mem inv'.staging.unitKeys
    (hswept.workUnits_eq ▸ List.mem_map_of_mem hu : u.swept clock.sweep ∈ swept.workUnits)
  have hidentity : (u.swept clock.sweep).identityJson = workUnit.identityJson := by
    rw [← huid]
    unfold WorkUnitRow.swept
    split <;> rfl
  rw [hidentity] at hrow
  have hlive : ∀ {row : WorkUnitRow}, swept.workUnit? workUnit.identityJson = some row →
      row.Live → row = u ∧ SamePrivate workUnit.identityJson old swept := by
    intro row hfound hlive
    rw [hrow, Option.some.injEq] at hfound
    subst hfound
    obtain ⟨hsame, -, hlater⟩ := WorkUnitRow.swept_live hlive
    refine ⟨hsame, (Expiries.onlyExpired inv hswept.expiries).others _ ?_⟩
    intro u' hu' hid' _
    rw [inv.staging.unit_eq hu' hu (hid'.trans huid.symm)]
    exact hlater
  cases hensured with
  | created hnew => rw [hrow] at hnew; cases hnew
  | opened hfound _ _ hrowState _ => exact ⟨rfl, rfl, (hlive hfound (Or.inl hrowState)).2⟩
  | closing hfound _ _ hrowState _ =>
    obtain ⟨rfl, -⟩ := hlive hfound (Or.inr hrowState)
    exact absurd hrowState (hnot _ hu huid)
  | mismatch => simp at hstate
  | committed => simp at hstate
  | expired => simp at hstate
  | overdue => simp at hstate

theorem captureWorkUnitEntity_captured {db : Db} (h : db.Captured unit key) :
    db.captureWorkUnitEntity unit key = .ok db := by
  rw [captureWorkUnitEntity, if_pos (captured_iff.mp h)]

theorem Db.SamePrivate.workUnitBaseHeads_eq (inv : Inv A old) (inv' : Inv A new)
    (h : SamePrivate unit old new) (key : EntityKey) :
    new.workUnitBaseHeads unit key = old.workUnitBaseHeads unit key :=
  workUnitBaseHeads_congr inv inv' fun _ => h.bases _ rfl

/-- A unit that kept what it has to itself has the same heads. -/
theorem Db.SamePrivate.workUnitHeads_eq (inv : Inv A old) (inv' : Inv A new)
    (h : SamePrivate unit old new) (key : EntityKey) :
    new.workUnitHeads unit key = old.workUnitHeads unit key :=
  workUnitHeads_congr inv inv' (fun _ => h.heads _ rfl) fun _ => h.bases _ rfl

/-- Records are no conflict of heads. -/
theorem stageIdempotency_ne_conflict {entity : WorkUnitCommit} {outcome : WorkUnitCommitOutcome}
    {heads : List String} (h : old.stageIdempotency entity = .ok (some outcome, new)) :
    outcome ≠ .conflict heads := by
  rintro rfl
  unfold Db.stageIdempotency at h
  split at h
  · cases h
  · obtain ⟨⟨found, recorded⟩, -, h⟩ := Except.bind_eq_ok.mp h
    cases found with
    | missing => cases h
    | replayed resultJson =>
      simp only [Except.pure_eq_ok, Except.ok.injEq, Prod.mk.injEq] at h
      split at h <;> cases h.1
    | conflict => cases h
    | unavailable => cases h

/-- **A commit in a unit** is a conflict only if the heads are not the expected ones. -/
theorem commitEntityInWorkUnit_conflict (inv : Inv A old) {entity : WorkUnitCommit}
    {heads : List String} (hcaptured : old.Captured entity.workUnit.identityJson entity.entity.key)
    (hnot : old.NotClosing entity.workUnit.identityJson)
    (h : (commitEntityInWorkUnit old clock entity).outcome = .ok (.conflict heads)) :
    old.workUnitHeads entity.workUnit.identityJson entity.entity.key ≠
      Table.sorted entity.entity.expectedHeads := by
  obtain ⟨swept, hswept, hcall, -⟩ := sweepThen_eq_ok inv h
  have inv' := (Expiries.keeps inv hswept.expiries).1
  obtain ⟨committed, hbody, -⟩ := transaction_eq_ok hcall
  split at hbody
  · cases hbody
  · obtain ⟨⟨state, base⟩, hensure, hrest⟩ := Except.bind_eq_ok.mp hbody
    have hensured := ensureWorkUnit_ensured hensure
    cases state with
    | policyMismatch => simp [commitBeforeDeadline_eq_ok] at hrest
    | committed => simp [commitBeforeDeadline_eq_ok] at hrest
    | expired => simp [commitBeforeDeadline_eq_ok] at hrest
    | closing =>
      have hstate := (hensured.of_captured inv hcaptured hnot hswept (Or.inr rfl)).1
      cases hstate
    | opened =>
      obtain ⟨-, rfl, hprivate⟩ := hensured.of_captured inv hcaptured hnot hswept (Or.inl rfl)
      obtain ⟨e, he, hid, hkey⟩ := hcaptured
      have hcaptured' : base.Captured entity.workUnit.identityJson entity.entity.key :=
        ⟨e, (hprivate.entities e hid).mpr he, hid, hkey⟩
      rw [← hprivate.workUnitHeads_eq inv inv']
      obtain ⟨captured, hcapture, hrest⟩ := Except.bind_eq_ok.mp hrest
      rw [captureWorkUnitEntity_captured hcaptured', Except.ok.injEq] at hcapture
      subst hcapture
      dsimp only at hrest
      split at hrest
      · assumption
      · obtain ⟨recordedAt, -, hrest⟩ := Except.bind_eq_ok.mp hrest
        obtain ⟨staged, -, hrest⟩ := Except.bind_eq_ok.mp hrest
        obtain ⟨⟨early, recorded⟩, hrecord, hrest⟩ := Except.bind_eq_ok.mp hrest
        exfalso
        cases early with
        | some outcome =>
          simp only [rollback_eq_ok, Finished.mk.injEq] at hrest
          exact stageIdempotency_ne_conflict hrecord hrest.1.symm
        | none =>
          dsimp only at hrest
          split at hrest
          · obtain ⟨_, -, hclosed⟩ := publishOrReport_closedBy hrest
            cases hclosed
          · simp [commitBeforeDeadline_eq_ok] at hrest

/-- A unit that nobody disturbed has no publication conflict. -/
theorem Db.Undisturbed.conflicts_nil (inv : Inv A old) (h : old.Undisturbed unit)
    {conflicts : List WorkUnitConflict} (hconflicts : old.publicationConflicts unit = .ok conflicts) :
    conflicts = [] := by
  obtain ⟨-, hin, -⟩ := publicationConflicts_spec inv.staging hconflicts
  refine List.eq_nil_iff_forall_not_mem.mpr fun conflict hconflict => ?_
  have hconflictIn := hin conflict hconflict
  obtain ⟨⟨e, he, hid, hkey⟩, -⟩ := mem_workUnitMutatedEntities.mp hconflictIn.mutated
  exact hconflictIn.moved (hkey ▸ h e he hid)

/-- Staging in a unit disturbs nothing. -/
theorem StagedIn.undisturbed (hlaw : A.Lawful) (inv : Inv A old) {entity : WorkUnitCommit}
    (hformed : entity.entity.WellFormed A) (h : StagedIn entity old new)
    (hcaptured : old.Captured entity.workUnit.identityJson entity.entity.key)
    (hundisturbed : old.Undisturbed unit) : new.Undisturbed unit := by
  obtain ⟨hunit, hid, huscope, hopen, hcapture, hheads, hstage, hrecord⟩ := h
  rename_i row captured staged recordedAt
  rw [← hid, captureWorkUnitEntity_captured hcaptured, Except.ok.injEq] at hcapture
  subst hcapture
  have hcrdt : CrdtInv A (old.recordStagedMutation entity) :=
    inv.crdt.congr (fun _ _ h => h) rfl rfl rfl
  obtain ⟨mid, hinsert, hreplace⟩ := Except.bind_eq_ok.mp hstage
  obtain ⟨⟨_, _, _, rfl⟩, -⟩ := stage_spec hlaw hcrdt hformed.genuine hinsert hreplace
  obtain ⟨_, _, rfl⟩ := (stageIdempotency_none hrecord).eq
  intro e he heid
  obtain ⟨e', he', rfl⟩ := List.mem_map.mp he
  have hsame : old.publishedHeads e'.key = old.workUnitBaseHeads unit e'.key := by
    refine hundisturbed e' he' ?_
    split at heid <;> exact heid
  split <;> exact hsame

/-- What a call finds of an undisturbed unit is undisturbed. -/
theorem Db.Undisturbed.swept (inv : Inv A old) {swept : Db} (hswept : Swept clock.sweep old swept)
    (hprivate : SamePrivate unit old swept) (h : old.Undisturbed unit) :
    swept.Undisturbed unit := by
  have inv' := (Expiries.keeps inv hswept.expiries).1
  intro e he hid
  rw [(Expiries.onlyExpired inv hswept.expiries).published.publishedHeads_eq,
    hprivate.workUnitBaseHeads_eq inv inv']
  exact h e ((hprivate.entities e hid).mp he) hid

/-- A commit in a unit that nobody disturbed meets no publication conflict. -/
theorem WorkUnitCommitted.not_publicationConflict (hlaw : A.Lawful) (inv : Inv A old)
    {entity : WorkUnitCommit} {conflicts : List WorkUnitConflict}
    (hformed : entity.entity.WellFormed A)
    (hscope : entity.workUnit.scopeJson = entity.entity.key.scopeJson)
    (hcaptured : old.Captured entity.workUnit.identityJson entity.entity.key)
    (hnot : old.NotClosing entity.workUnit.identityJson)
    (hundisturbed : entity.close = true → old.Undisturbed entity.workUnit.identityJson) :
    ¬ WorkUnitCommitted clock entity old (.ok (.publicationConflict conflicts)) new := by
  intro h
  cases h with
  | refused _ hrefused => exact absurd rfl (hrefused.2.2 conflicts)
  | joined hswept hensured _ _ =>
    cases (hensured.of_captured inv hcaptured hnot hswept (Or.inr rfl)).1
  | @closed swept base staged _ _ hswept hensured hstaged hclose h =>
    obtain ⟨-, rfl, hprivate⟩ := hensured.of_captured inv hcaptured hnot hswept (Or.inl rfl)
    have inv' := (Expiries.keeps inv hswept.expiries).1
    obtain ⟨e, he, hid, hkey⟩ := hcaptured
    have hundisturbed' := hstaged.undisturbed hlaw inv' hformed
      ⟨e, (hprivate.entities e hid).mpr he, hid, hkey⟩
      ((hundisturbed hclose).swept inv hswept hprivate)
    have heffects : Effects A Known.anything base
        (staged.markClosing entity.workUnit.identityJson) :=
      (hstaged.effects hlaw inv' hformed (fun _ _ => trivial) hscope).tail (.close staged _)
    cases h with
    | reported hconflicts hne =>
      exact hne (Db.Undisturbed.conflicts_nil (Effects.keeps hlaw inv' heffects).1 hundisturbed'
        hconflicts)

/-! ### What an accepted commit stores -/

/-- The tables hold a version as it was committed. -/
def Db.Holds (db : Db) (key : EntityKey) (version : StoredEntityVersion) : Prop :=
  ∃ r ∈ db.versions, r.key = key ∧ r.version = version.version ∧ r.state = version.state ∧
    r.valueJson = version.valueJson

theorem commitEntityInTransaction_stores (hlaw : A.Lawful) (inv : Inv A old)
    {entity : EntityCommit} (hformed : entity.WellFormed A)
    (h : old.commitEntityInTransaction entity = .ok (.committed, new)) :
    new.publishedHeads entity.key = Table.sorted entity.headVersions ∧
      ∀ v ∈ entity.newVersions, new.Holds entity.key v := by
  obtain ⟨-, -, hpublishes, ⟨recordedAt, hversions⟩, -⟩ :=
    commitEntityInTransaction_spec hlaw inv.crdt hformed.genuine h
  refine ⟨?_, fun v hv => ⟨_, hversions ▸ List.mem_append_right _ (List.mem_map_of_mem hv), rfl,
    rfl, rfl, rfl⟩⟩
  have hheads := hpublishes.publishedHeads_eq entity.key
  rwa [if_pos rfl] at hheads

theorem commitEntity_stores (hlaw : A.Lawful) (inv : Inv A old) {entity : EntityCommit}
    (hformed : entity.WellFormed A) (h : (commitEntity old clock entity).outcome = .ok .committed) :
    (commitEntity old clock entity).db.publishedHeads entity.key =
        Table.sorted entity.headVersions ∧
      ∀ v ∈ entity.newVersions, (commitEntity old clock entity).db.Holds entity.key v := by
  obtain ⟨swept, hswept, hcommit⟩ := commitEntity_committed inv h
  exact commitEntityInTransaction_stores hlaw (Expiries.keeps inv hswept.expiries).1 hformed hcommit

theorem commitEntityIdempotent_stores (hlaw : A.Lawful) (inv : Inv A old) {entity : EntityCommit}
    {record : IdempotencyRecord} {now : ℕ} (hformed : entity.WellFormed A)
    (h : (commitEntityIdempotent old clock entity record now).outcome = .ok .committed) :
    (commitEntityIdempotent old clock entity record now).db.publishedHeads entity.key =
        Table.sorted entity.headVersions ∧
      ∀ v ∈ entity.newVersions,
        (commitEntityIdempotent old clock entity record now).db.Holds entity.key v := by
  obtain ⟨forgotten, next, hforget, -, -, hcommit, hinsert⟩ := commitEntityIdempotent_committed h
  have hforgets : Upkeep Known.anything old forgotten := deleteOverdueIdempotency_upkeep hforget
  have inv' := (hforgets.keeps inv).1
  have hstores := commitEntityInTransaction_stores hlaw inv' hformed hcommit
  rw [insertIdempotency_eq hinsert]
  exact hstores

/-- A publication of a unit keeps the versions, and publishes the heads of its entities. -/
theorem finishWorkUnitPublication_stores (inv : Inv A old) {u : WorkUnitRow} {recordedAt : ℕ}
    (hu : u ∈ old.workUnits) (hlive : u.Live)
    (h : old.finishWorkUnitPublication u.identityJson recordedAt = .ok new) :
    (∀ key version, old.Holds key version → new.Holds key version) ∧
      ∀ key ∈ old.workUnitMutatedEntities u.identityJson,
        new.publishedHeads key = old.directWorkUnitHeads u.identityJson key := by
  obtain ⟨mid, -, hpublished, -, -, -, rfl⟩ := finishWorkUnitPublication_spec inv hu hlive h
  refine ⟨?_, fun key hkey => ?_⟩
  · rintro key version ⟨r, hr, hrkey, hrest⟩
    by_cases hown : r.workUnitJson = some u.identityJson ∧
        r.key ∈ old.workUnitMutatedEntities u.identityJson
    · obtain ⟨cursor, hcursor⟩ := hpublished.published r hr hown.1 hown.2
      exact ⟨_, hcursor, hrkey, hrest⟩
    · exact ⟨r, hpublished.others r hr hown, hrkey, hrest⟩
  · have hheads := hpublished.heads key
    rwa [if_pos hkey] at hheads

/-- The heads a unit has of an entity it mutated are its own. -/
theorem workUnitHeads_of_mutated (h : key ∈ old.workUnitMutatedEntities unit) :
    old.workUnitHeads unit key = old.directWorkUnitHeads unit key := by
  obtain ⟨-, head, hhead, hid, hkey⟩ := mem_workUnitMutatedEntities.mp h
  rw [workUnitHeads, if_neg]
  refine List.ne_nil_of_mem (a := head.version) (mem_directWorkUnitHeads.mpr ?_)
  rw [← hid, ← hkey]
  exact hhead

/-- What a staged mutation left in its unit. -/
theorem StagedIn.stores (hlaw : A.Lawful) (inv : Inv A old) {entity : WorkUnitCommit}
    (hformed : entity.entity.WellFormed A)
    (hscope : entity.workUnit.scopeJson = entity.entity.key.scopeJson)
    (h : StagedIn entity old new) :
    ∀ v ∈ entity.entity.newVersions, new.Holds entity.entity.key v := by
  obtain ⟨recordedAt, _, _, _, _, _, _, _, rfl⟩ := h.eq hlaw inv hformed hscope
  exact fun v hv => ⟨_, List.mem_append_right _ (List.mem_map_of_mem hv), rfl, rfl, rfl, rfl⟩

/-- **What an accepted commit in a unit leaves**: its heads in the unit, published if it closed the
unit, and its versions. -/
theorem WorkUnitCommitted.stores (hlaw : A.Lawful) (inv : Inv A old) {entity : WorkUnitCommit}
    {outcome : WorkUnitCommitOutcome} (hformed : entity.entity.WellFormed A)
    (hscope : entity.workUnit.scopeJson = entity.entity.key.scopeJson)
    (hcaptured : old.Captured entity.workUnit.identityJson entity.entity.key)
    (hnot : old.NotClosing entity.workUnit.identityJson)
    (h : WorkUnitCommitted clock entity old (.ok outcome) new)
    (haccepted : outcome = .staged ∨ outcome = .published) :
    new.workUnitHeads entity.workUnit.identityJson entity.entity.key =
        Table.sorted entity.entity.headVersions ∧
      (entity.close = true →
        new.publishedHeads entity.entity.key = Table.sorted entity.entity.headVersions) ∧
      ∀ v ∈ entity.entity.newVersions, new.Holds entity.entity.key v := by
  cases h with
  | refused _ hrefused => exact absurd haccepted (not_or.mpr ⟨hrefused.1, hrefused.2.1⟩)
  | joined hswept hensured _ _ =>
    cases (hensured.of_captured inv hcaptured hnot hswept (Or.inr rfl)).1
  | staged hswept hensured hstaged hclose =>
    obtain ⟨inv', -, -, hheads, -⟩ :=
      hstaged.replaces hlaw inv hformed hscope hcaptured hswept hensured
    exact ⟨hheads, fun h => by simp [hclose] at h, hstaged.stores hlaw inv' hformed hscope⟩
  | @closed swept base staged _ _ hswept hensured hstaged _ h =>
    obtain ⟨inv', -, -, hheads, -⟩ :=
      hstaged.replaces hlaw inv hformed hscope hcaptured hswept hensured
    have hstores := hstaged.stores hlaw inv' hformed hscope
    have heffects : Effects A Known.anything base
        (staged.markClosing entity.workUnit.identityJson) :=
      (hstaged.effects hlaw inv' hformed (fun _ _ => trivial) hscope).tail (.close staged _)
    have inv'' := (Effects.keeps hlaw inv' heffects).1
    have hsame : new.workUnitHeads entity.workUnit.identityJson entity.entity.key =
        staged.workUnitHeads entity.workUnit.identityJson entity.entity.key :=
      hstaged.closed_workUnitHeads hlaw inv' hformed hscope h
    have hmutated := hstaged.mutated hlaw inv' hformed hscope
    obtain ⟨u, hu, hid, hstate⟩ := hstaged.closing_unit hlaw inv' hformed hscope
    cases h with
    | reported => simp at haccepted
    | published _ h =>
      obtain ⟨hholds, hpublished⟩ := finishWorkUnitPublication_stores inv'' hu (Or.inr hstate)
        (by rw [hid]; exact h)
      refine ⟨hsame.trans hheads, fun _ => ?_, fun v hv => hholds _ v (hstores v hv)⟩
      rw [hid] at hpublished
      rw [hpublished _ hmutated, ← hheads]
      exact (workUnitHeads_of_mutated hmutated).symm

end Patchouli
