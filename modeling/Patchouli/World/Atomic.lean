import Patchouli.Sqlite.Atomic
import Patchouli.World.Effects

/-!
# Declined mutations

Whatever way a provider mutation fails or declines, in whatever reachable world: what is published
and what every unit keeps to itself is as it was, but for the units that were over. A publication
conflict leaves something behind, in the private state of its unit.

## Main results

* `commitEntityInWorkUnit_declined`, `commitEntityInWorkUnit_conflicted`,
  `publishWorkUnit_declined` — the three ways a unit's mutation does not go through
* `mutations_all_or_nothing` — all four mutations, in every reachable world
-/

namespace Patchouli

open Db Relation

section Declined

variable {A : Automerge} {db : Db} {clock : Clock}

/-- A commit in a work unit that was declined. -/
theorem commitEntityInWorkUnit_declined (inv : Inv A db) (clock : Clock) {entity : WorkUnitCommit}
    (h : ∀ outcome, (commitEntityInWorkUnit db clock entity).outcome = .ok outcome →
      outcome.Refused) :
    OnlyExpired (max clock.sweep entity.workUnit.nowUnixMs) db
      (commitEntityInWorkUnit db clock entity).db := by
  have hcases := commitEntityInWorkUnit_cases inv clock entity
  generalize (commitEntityInWorkUnit db clock entity).outcome = outcome at h hcases
  generalize (commitEntityInWorkUnit db clock entity).db = new at hcases ⊢
  cases hcases with
  | failed hexpiries => exact (hexpiries.mono (le_max_left _ _)).onlyExpired inv
  | refused hexpiries => exact hexpiries.onlyExpired inv
  | staged => exact absurd rfl (h _ rfl).1
  | closed _ _ _ _ hclosed =>
    cases hclosed with
    | published => exact absurd rfl (h _ rfl).2.1
    | reported => exact absurd rfl ((h _ rfl).2.2 _)
  | joined _ _ _ hclosed =>
    cases hclosed with
    | published => exact absurd rfl (h _ rfl).2.1
    | reported => exact absurd rfl ((h _ rfl).2.2 _)

/-- What a publication conflict leaves: expired units, forgotten records, and a unit that has
changed. -/
structure LeavesUnit (A : Automerge) (clock : Clock) (entity : WorkUnitCommit)
    (old swept forgotten new : Db) : Prop where
  expired : OnlyExpired clock.sweep old swept
  forgets : forgotten = swept ∨
    swept.deleteOverdueIdempotency entity.workUnit.nowUnixMs = .ok forgotten
  unit : OnlyUnit entity.workUnit.identityJson forgotten new
  fields : (∀ v ∈ entity.entity.newVersions, ∀ f ∈ v.crdtFields, ∀ c ∈ f.changes, Genuine A c) →
    SameFields swept new

/-- A commit in a work unit that met publication conflicts. -/
theorem commitEntityInWorkUnit_conflicted (hlaw : A.Lawful) (inv : Inv A db) (clock : Clock)
    {entity : WorkUnitCommit} {conflicts : List WorkUnitConflict}
    (h : (commitEntityInWorkUnit db clock entity).outcome = .ok (.publicationConflict conflicts)) :
    ∃ swept forgotten, LeavesUnit A clock entity db swept forgotten
      (commitEntityInWorkUnit db clock entity).db := by
  have hcases := commitEntityInWorkUnit_cases inv clock entity
  rw [h] at hcases
  generalize (commitEntityInWorkUnit db clock entity).db = new at hcases ⊢
  cases hcases with
  | refused _ hrefused => exact absurd rfl (hrefused.2.2 conflicts)
  | @closed swept base staged _ _ hswept hensured hstaged _ hclosed =>
    cases hclosed
    have hinv := (Expiries.keeps inv hswept.expiries).1
    obtain ⟨forgotten, hforgotten, honly⟩ := hstaged.onlyUnit_ensured hensured
    refine ⟨swept, forgotten, hswept.expiries.onlyExpired inv, hforgotten,
      honly.trans (markClosing_onlyUnit _ _), fun hgenuine => ?_⟩
    have hbase : CrdtInv A base ∧ ∀ r ∈ swept.versions, r ∈ base.versions ∧
        base.readCrdtFields r.key r.version = swept.readCrdtFields r.key r.version := by
      cases hensured with
      | created => exact ⟨hinv.crdt.congr (fun _ _ h => h) rfl rfl rfl, fun r hr => ⟨hr, rfl⟩⟩
      | opened => exact ⟨hinv.crdt, fun r hr => ⟨hr, rfl⟩⟩
    intro r hr hnone
    rw [← (hbase.2 r hr).2]
    exact hstaged.sameFields hlaw hbase.1 hgenuine r (hbase.2 r hr).1 hnone
  | joined hswept hensured _ hclosed =>
    cases hclosed
    exact ⟨_, _, hswept.expiries.onlyExpired inv, Or.inl rfl,
      ⟨.refl _, rfl, fun id _ => .refl id _⟩, fun _ _ _ _ => rfl⟩

/-- A publication that was declined. -/
theorem publishWorkUnit_declined (inv : Inv A db) (clock : Clock) {publish : WorkUnitPublish}
    (h : (publishWorkUnit db clock publish).outcome ≠ .ok .published) :
    OnlyExpired (max clock.sweep publish.workUnit.nowUnixMs) db
      (publishWorkUnit db clock publish).db := by
  have hcases := publishWorkUnit_cases inv clock publish
  generalize (publishWorkUnit db clock publish).outcome = outcome at h hcases
  generalize (publishWorkUnit db clock publish).db = new at hcases ⊢
  cases hcases with
  | refused hexpiries => exact hexpiries.onlyExpired inv
  | published => exact absurd rfl h

end Declined

/-- **Provider mutations are all or nothing.** -/
theorem mutations_all_or_nothing {env : Environment} {w : World} (hlaw : env.automerge.Lawful)
    (hreach : Reachable env w) (clock : Clock) :
    (∀ entity, (commitEntity w.db clock entity).outcome ≠ .ok .committed →
      OnlyExpired clock.sweep w.db (commitEntity w.db clock entity).db) ∧
    (∀ entity record now,
      (commitEntityIdempotent w.db clock entity record now).outcome ≠ .ok .committed →
        (commitEntityIdempotent w.db clock entity record now).db = w.db) ∧
    (∀ entity : WorkUnitCommit,
      (∀ outcome, (commitEntityInWorkUnit w.db clock entity).outcome = .ok outcome →
        outcome.Refused) →
        OnlyExpired (max clock.sweep entity.workUnit.nowUnixMs) w.db
          (commitEntityInWorkUnit w.db clock entity).db) ∧
    (∀ (entity : WorkUnitCommit) conflicts,
      (commitEntityInWorkUnit w.db clock entity).outcome = .ok (.publicationConflict conflicts) →
        ∃ swept forgotten, LeavesUnit env.automerge clock entity w.db swept forgotten
          (commitEntityInWorkUnit w.db clock entity).db) ∧
    ∀ publish : WorkUnitPublish,
      (publishWorkUnit w.db clock publish).outcome ≠ .ok .published →
        OnlyExpired (max clock.sweep publish.workUnit.nowUnixMs) w.db
          (publishWorkUnit w.db clock publish).db := by
  have inv := (hreach.sound hlaw).inv
  exact ⟨fun _ h => (commitEntity_expiries inv h).onlyExpired inv,
    fun _ _ _ h => commitEntityIdempotent_db h,
    fun _ h => commitEntityInWorkUnit_declined inv clock h,
    fun _ _ h => commitEntityInWorkUnit_conflicted hlaw inv clock h,
    fun _ h => publishWorkUnit_declined inv clock h⟩

/-- A second creation of the note. -/
def secondCreation : EntityCommit where
  key := noteKey
  expectedHeads := []
  newVersions := [{ version := "v", state := .active, valueJson := some .null, crdtFields := [] }]
  headVersions := ["v"]
  changeKind := .created
  causalToken := "v"
  eventMetaJson := []
  writeSessionKeys := []
  recordedAtUnixMs := 7
  deadlineUnixMs := none

theorem second_creation_changes_nothing :
    OnlyExpired 7 onlyNote.db (commitEntity onlyNote.db (clockAt 7) secondCreation).db :=
  (mutations_all_or_nothing (w := onlyNote) (show noteEnvironment.automerge.Lawful from
    noAutomerge_lawful) (World.after_reachable noteEnvironment _) (clockAt 7)).1 secondCreation
      (by decide)

end Patchouli
