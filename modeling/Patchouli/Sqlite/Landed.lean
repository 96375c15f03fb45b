import Patchouli.Sqlite.Visible

/-!
# Where the versions of a commit land

A commit that is answered with success has stored its versions: an immediate one has published
them, one in a work unit has staged them, or published them together with the unit. What is staged
is published by whoever publishes the unit. There is one exception: a closing commit that finds its
unit closing already stores nothing (`WorkUnitCommitted.lands` has to exclude it).

## Main definitions

* `Db.PublishesVersion`, `Db.StagesVersion` — a stored version, with its value
* `Db.ClosingAt` — the unit of a call is closing, and not overdue

## Main results

* `commitEntity_publishes`, `commitEntityIdempotent_publishes`
* `WorkUnitCommitted.lands`
* `publishWorkUnit_commits`
-/

namespace Patchouli

open Db Relation

variable {A : Automerge} {db old new : Db} {key : EntityKey} {unit : String}
  {v : StoredEntityVersion} {clock : Clock}

/-! ### Stored versions -/

/-- The version is published. -/
def Db.PublishesVersion (db : Db) (key : EntityKey) (v : StoredEntityVersion) : Prop :=
  ∃ r ∈ db.versions, r.key = key ∧ r.workUnitJson = none ∧ r.Stores v

/-- The version is staged in the unit. -/
def Db.StagesVersion (db : Db) (unit : String) (key : EntityKey) (v : StoredEntityVersion) : Prop :=
  ∃ r ∈ db.versions, r.key = key ∧ r.workUnitJson = some unit ∧ r.Stores v

/-- The version is published, or staged in the unit. -/
def Db.HasLanded (db : Db) (unit : String) (key : EntityKey) (v : StoredEntityVersion) : Prop :=
  db.StagesVersion unit key v ∨ db.PublishesVersion key v

theorem Db.PublishesVersion.isPublished (h : db.PublishesVersion key v) :
    db.IsPublished key v.version := by
  obtain ⟨r, hr, hkey, hnone, hstores⟩ := h
  exact ⟨r, hr, hkey, hstores.version.symm, hnone⟩

/-- What is published stays published. -/
theorem Db.PublishesVersion.extends (h : old.PublishesVersion key v) (hextends : Extends old new) :
    new.PublishesVersion key v := by
  obtain ⟨r, hr, hkey, hnone, hstores⟩ := h
  exact ⟨r, hextends.published r hr hnone, hkey, hnone, hstores⟩

/-- What is staged is published with its unit. -/
theorem Db.HasLanded.publishes (h : old.HasLanded unit key v) (hextends : Extends old new)
    (inv' : Inv A new) (hcommitted : new.Committed unit) : new.PublishesVersion key v := by
  rcases h with ⟨r, hr, hkey, hunit, hstores⟩ | hpublished
  · obtain ⟨cursor, hrow⟩ := hextends.publishes_staged inv' hr hunit hcommitted
    exact ⟨publishedRow cursor r, hrow, hkey, rfl, ⟨hstores.version, hstores.state, hstores.value⟩⟩
  · exact hpublished.extends hextends

/-! ### Immediate commits -/

theorem commitEntityInTransaction_publishes (hlaw : A.Lawful) (inv : Inv A old)
    {entity : EntityCommit} (hformed : entity.WellFormed A)
    (h : old.commitEntityInTransaction entity = .ok (.committed, new)) :
    ∀ v ∈ entity.newVersions, new.PublishesVersion entity.key v := by
  obtain ⟨-, -, -, ⟨recordedAt, hversions⟩, -⟩ :=
    commitEntityInTransaction_spec hlaw inv.crdt hformed.genuine h
  intro v hv
  refine ⟨publishedRow (old.lastCursor + 1) (insertedRow entity.key none recordedAt v), ?_, rfl, rfl,
    ⟨rfl, rfl, rfl⟩⟩
  rw [hversions]
  exact List.mem_append_right _ (List.mem_map_of_mem hv)

/-- **A commit that went through has published its versions.** -/
theorem commitEntity_publishes (hlaw : A.Lawful) (inv : Inv A db) {entity : EntityCommit}
    (hformed : entity.WellFormed A) (h : (commitEntity db clock entity).outcome = .ok .committed) :
    ∀ v ∈ entity.newVersions, (commitEntity db clock entity).db.PublishesVersion entity.key v := by
  obtain ⟨swept, hswept, hcommit⟩ := commitEntity_committed inv h
  exact commitEntityInTransaction_publishes hlaw (Expiries.keeps inv hswept.expiries).1 hformed
    hcommit

theorem commitEntityIdempotent_publishes (hlaw : A.Lawful) (inv : Inv A db) {entity : EntityCommit}
    (hformed : entity.WellFormed A) {record : IdempotencyRecord} {now : ℕ}
    (h : (commitEntityIdempotent db clock entity record now).outcome = .ok .committed) :
    ∀ v ∈ entity.newVersions,
      (commitEntityIdempotent db clock entity record now).db.PublishesVersion entity.key v := by
  obtain ⟨forgotten, next, hforget, -, -, hcommit, hinsert⟩ := commitEntityIdempotent_committed h
  have inv' := ((deleteOverdueIdempotency_upkeep (K := Known.anything) hforget).keeps inv).1
  intro v hv
  have hnext := commitEntityInTransaction_publishes hlaw inv' hformed hcommit v hv
  rw [insertIdempotency_eq hinsert]
  exact hnext

/-! ### Commits in a work unit -/

/-- The unit is closing, under the policy of the call, and it is not overdue. -/
def Db.ClosingAt (db : Db) (clock : Clock) (workUnit : WorkUnit) : Prop :=
  ∃ u ∈ db.workUnits, u.identityJson = workUnit.identityJson ∧ u.state = .closing ∧
    u.scopeJson = workUnit.scopeJson ∧ u.policyJson = workUnit.policyJson ∧
    clock.sweep < u.expiresAtUnixMs ∧ workUnit.nowUnixMs < u.expiresAtUnixMs

/-- Only then a call finds its unit closing. -/
theorem Ensured.closingAt {swept base : Db} {workUnit : WorkUnit}
    (hswept : Swept clock.sweep db swept) (h : Ensured swept workUnit .closing base) :
    db.ClosingAt clock workUnit := by
  cases h with
  | @closing row hrow hscope hpolicy hstate hnow =>
    obtain ⟨hmem, hid⟩ := workUnit?_eq_some hrow
    rw [hswept.workUnits_eq] at hmem
    obtain ⟨u, hu, rfl⟩ := List.mem_map.mp hmem
    obtain ⟨hsame, -, hsweep⟩ := WorkUnitRow.swept_live (Or.inr hstate)
    rw [hsame] at hid hscope hpolicy hstate hnow
    exact ⟨u, hu, hid, hstate, hscope, hpolicy, hsweep, hnow⟩

theorem StagedIn.stages (hlaw : A.Lawful) (inv : Inv A old) {entity : WorkUnitCommit}
    (hformed : entity.entity.WellFormed A)
    (hscope : entity.workUnit.scopeJson = entity.entity.key.scopeJson)
    (h : StagedIn entity old new) : ∀ v ∈ entity.entity.newVersions,
      new.StagesVersion entity.workUnit.identityJson entity.entity.key v := by
  obtain ⟨recordedAt, _, _, _, _, _, _, _, heq⟩ := h.eq hlaw inv hformed hscope
  intro v hv
  refine ⟨insertedRow entity.entity.key (some entity.workUnit.identityJson) recordedAt v, ?_, rfl,
    rfl, ⟨rfl, rfl, rfl⟩⟩
  rw [heq]
  exact List.mem_append_right _ (List.mem_map_of_mem hv)

/-- The unit is committed by its publication. -/
theorem finishWorkUnitPublication_commits (inv : Inv A old) (hclosing : old.IsClosing unit)
    {recordedAt : ℕ} (h : old.finishWorkUnitPublication unit recordedAt = .ok new) :
    new.Committed unit := by
  obtain ⟨u, hu, rfl, hstate⟩ := hclosing
  obtain ⟨recordedAt, ⟨u', hu', hid, hcommitted, -⟩, -⟩ :=
    (finishWorkUnitPublication_shown inv hu rfl (Or.inr hstate) h).records
  exact ⟨u', hu', hid, hcommitted⟩

/-- A commit in a unit that went through and did not find the unit closing: its versions are staged,
or published with the unit. -/
theorem WorkUnitCommitted.lands (hlaw : A.Lawful) (inv : Inv A old) {entity : WorkUnitCommit}
    {outcome : WorkUnitCommitOutcome} (hformed : entity.entity.WellFormed A)
    (hscope : entity.workUnit.scopeJson = entity.entity.key.scopeJson)
    (hnot : ¬ (entity.close = true ∧ old.ClosingAt clock entity.workUnit))
    (h : WorkUnitCommitted clock entity old (.ok outcome) new) (hdone : ¬ outcome.Refused) :
    (∀ v ∈ entity.entity.newVersions,
      new.HasLanded entity.workUnit.identityJson entity.entity.key v) ∧
      (outcome = .published → new.Committed entity.workUnit.identityJson) ∧
      (outcome = .staged → entity.close = false) := by
  let K : Known := Known.anything
  cases h with
  | refused _ hrefused => exact absurd hrefused hdone
  | @staged swept base _ hswept hensured hstaged hclose =>
    have hbase : Upkeeps K old base :=
      (Expiries.upkeeps K hswept.expiries).trans (hensured.upkeeps trivial)
    exact ⟨fun v hv => Or.inl (hstaged.stages hlaw (Upkeeps.keeps inv hbase).1 hformed hscope v hv),
      (by rintro ⟨⟩), fun _ => hclose⟩
  | @closed swept base staged _ _ hswept hensured hstaged hclose h =>
    have hbase : Upkeeps K old base :=
      (Expiries.upkeeps K hswept.expiries).trans (hensured.upkeeps trivial)
    have inv' := (Upkeeps.keeps inv hbase).1
    have hmarked := (Effects.keeps hlaw inv' ((hstaged.effects (K := K) hlaw inv' hformed
      (fun _ _ => trivial) hscope).tail (.close _ entity.workUnit.identityJson))).1
    have hstages := hstaged.stages hlaw inv' hformed hscope
    cases h with
    | reported =>
      exact ⟨fun v hv => Or.inl (hstages v hv), (by rintro ⟨⟩), by rintro ⟨⟩⟩
    | published _ h =>
      have hthere := hstaged.closing_unit hlaw inv' hformed hscope
      have hcommitted := finishWorkUnitPublication_commits hmarked hthere h
      obtain ⟨u, hu, hid, hstate⟩ := hthere
      have hshown := finishWorkUnitPublication_shown hmarked hu hid (Or.inr hstate) h
      refine ⟨fun v hv => Or.inr ?_, fun _ => hcommitted, by rintro ⟨⟩⟩
      obtain ⟨r, hr, hkey, hunit, hstores⟩ := hstages v hv
      obtain ⟨cursor, hrow⟩ := hshown.versions r hr hunit
      exact ⟨publishedRow cursor r, hrow, hkey, rfl,
        ⟨hstores.version, hstores.state, hstores.value⟩⟩
  | @joined swept _ _ hswept hensured hclose h =>
    exact absurd ⟨hclose, hensured.closingAt hswept⟩ hnot

/-! ### Publications -/

/-- A publication that went through has committed its unit. -/
theorem publishWorkUnit_commits (hlaw : A.Lawful) (inv : Inv A db) {publish : WorkUnitPublish}
    (hformed : ∀ r ∈ publish.resolutions, r.WellFormed A)
    (h : (publishWorkUnit db clock publish).outcome = .ok .published) :
    (publishWorkUnit db clock publish).db.Committed publish.workUnit.identityJson := by
  let K : Known := Known.anything
  have hcases := publishWorkUnit_cases inv clock publish
  rw [h] at hcases
  generalize (publishWorkUnit db clock publish).db = new at hcases
  cases hcases with
  | refused _ hrefused => exact absurd rfl hrefused
  | @published swept resolved _ conflicts _ hswept hensured hconflicts _ happly hfinish =>
    have inv' := (Expiries.keeps inv hswept.expiries).1
    obtain ⟨heffects, hresolved⟩ := publishing_resolvedIn (K := K) hlaw inv' hensured hformed
      (fun _ _ _ _ => trivial) hconflicts happly
    obtain ⟨_, _, _, _, _, heq, -⟩ := hresolved.eq
    have hunits : resolved.workUnits = swept.workUnits := by rw [heq]
    obtain ⟨u, hu, hid, hstate⟩ := hensured.closing_unit
    exact finishWorkUnitPublication_commits (Effects.keeps hlaw inv' heffects).1
      ⟨u, hunits ▸ hu, hid, hstate⟩ hfinish

theorem publishWorkUnit_ne_staged (inv : Inv A db) (clock : Clock) (publish : WorkUnitPublish) :
    (publishWorkUnit db clock publish).outcome ≠ .ok .staged := by
  intro h
  obtain ⟨swept, -, hcall, -⟩ := sweepThen_eq_ok inv (Except.mapError_eq_ok.mp h)
  obtain ⟨committed, hbody, -⟩ := transaction_eq_ok hcall
  obtain ⟨⟨state, base⟩, -, hbody⟩ := Except.bind_eq_ok.mp hbody
  cases state with
  | policyMismatch => simp at hbody
  | committed => simp at hbody
  | expired => simp at hbody
  | opened => cases hbody
  | closing =>
    obtain ⟨conflicts, -, hbody⟩ := Except.bind_eq_ok.mp hbody
    split at hbody
    · simp at hbody
    · obtain ⟨applied, happly, hbody⟩ := Except.bind_eq_ok.mp hbody
      cases applied with
      | error early =>
        simp only [rollback_eq_ok, Finished.mk.injEq] at hbody
        exact (applyResolutions_early happly).2 hbody.1.symm
      | ok resolved =>
        obtain ⟨recordedAt, -, hbody⟩ := Except.bind_eq_ok.mp hbody
        obtain ⟨new, -, hbody⟩ := Except.bind_eq_ok.mp hbody
        simp at hbody

end Patchouli
