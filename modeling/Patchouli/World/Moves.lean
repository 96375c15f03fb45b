import Patchouli.World.Effects

/-!
# What an event does to the tables

An event reads, and then the tables are tended to at most; or it is the step of a mutation that
commits, commits in a unit, or publishes the unit. What holds of runs is proved of these four cases:
the calls behind them are not looked into again.

## Main definitions

* `Moved` — what an event does to the tables

## Main results

* `World.step_moved` — an event does one of these
-/

namespace Patchouli

open Db Relation

variable {env : Environment} {w : World}

/-- What an event does to the tables. -/
inductive Moved (env : Environment) (w : World) (event : Event) (new : Db) : Prop
  | kept (h : Upkeeps (w.brings env event) w.db new)
  | committed {i : ℕ} {clock : Clock} {p : Process} {prepared : Prepared} {base next : Db}
    (hevent : event = .advance i clock) (hp : w.processes[i]? = some p)
    (hat : p.stage = .commit prepared) (hnone : p.admitted.workUnit = none)
    (hbase : Upkeeps Known.nothing w.db base)
    (h : base.commitEntityInTransaction prepared.commit = .ok (.committed, next))
    (hrecord : ∃ idempotency, new = { next with idempotency })
  | inUnit {i : ℕ} {clock : Clock} {p : Process} {prepared : Prepared} {selected : SelectedWorkUnit}
    (hevent : event = .advance i clock) (hp : w.processes[i]? = some p)
    (hat : p.stage = .commit prepared) (hselected : p.admitted.workUnit = some selected)
    (h : WorkUnitCommitted clock (p.workUnitCommit selected prepared) w.db
      (commitEntityInWorkUnit w.db clock (p.workUnitCommit selected prepared)).outcome new)
  | published {i : ℕ} {clock : Clock} {p : Process} {prepared : Prepared}
    {resolutions : List WorkUnitResolution} {selected : SelectedWorkUnit}
    (hevent : event = .advance i clock) (hp : w.processes[i]? = some p)
    (hat : p.stage = .publish prepared resolutions) (hselected : p.admitted.workUnit = some selected)
    (h : WorkUnitPublished clock (p.workUnitPublish selected resolutions) w.db
      (publishWorkUnit w.db clock (p.workUnitPublish selected resolutions)).outcome new)

namespace Process

variable {i : ℕ} {p : Process}

/-- A commit that is not in a unit. -/
theorem commitEntity_moved (hsound : w.Sound env) (hp : w.processes[i]? = some p)
    {prepared : Patchouli.Prepared} (hat : p.stage = .commit prepared)
    (hnone : p.admitted.workUnit = none) (clock : Clock) :
    Moved env w (.advance i clock) (commitEntity w.db clock prepared.commit).db := by
  by_cases hcommitted : (commitEntity w.db clock prepared.commit).outcome = .ok .committed
  · obtain ⟨swept, hswept, hcommit⟩ := commitEntity_committed hsound.inv hcommitted
    exact .committed rfl hp hat hnone (Expiries.upkeeps _ hswept.expiries) hcommit ⟨_, rfl⟩
  · exact .kept (Expiries.upkeeps _ (commitEntity_expiries hsound.inv hcommitted))

theorem commitEntityIdempotent_moved (hp : w.processes[i]? = some p)
    {prepared : Patchouli.Prepared} (hat : p.stage = .commit prepared)
    (hnone : p.admitted.workUnit = none) (clock : Clock) (record : IdempotencyRecord) (now : ℕ) :
    Moved env w (.advance i clock)
      (commitEntityIdempotent w.db clock prepared.commit record now).db := by
  by_cases hcommitted :
      (commitEntityIdempotent w.db clock prepared.commit record now).outcome = .ok .committed
  · obtain ⟨forgotten, next, hforget, -, -, hcommit, hinsert⟩ :=
      commitEntityIdempotent_committed hcommitted
    exact .committed rfl hp hat hnone (.single (deleteOverdueIdempotency_upkeep hforget)) hcommit
      ⟨_, insertIdempotency_eq hinsert⟩
  · rw [commitEntityIdempotent_db hcommitted]
    exact .kept .refl

/-- **A step of a mutation**, by its stage. -/
theorem step_moved (hsound : w.Sound env) (hp : w.processes[i]? = some p) (clock : Clock) :
    Moved env w (.advance i clock) (p.step env i clock w.db).2 := by
  have h := hsound.processes i p hp
  have inv := hsound.inv
  unfold Process.step
  split
  · rename_i identity hat
    have hlive : ∀ outcome route, p.stage ≠ .answered outcome route := by simp [hat]
    unfold callIdentify
    dsimp only
    split
    · rename_i selected hselected
      obtain ⟨-, hunit⟩ := h.workUnit hlive hselected
      refine .kept (readIdempotencyInWorkUnit_upkeeps inv _ _ _ _ _ _ _ hunit ?_)
      intro u hu hid
      rw [← hsound.keyed u hu, hid, hunit]
    · exact .kept (readIdempotency_upkeeps _ _ _ _ _ _ _)
  · rename_i hat
    have hlive : ∀ outcome route, p.stage ≠ .answered outcome route := by simp [hat]
    split
    · rename_i selected hselected
      obtain ⟨hscope, hunit⟩ := h.workUnit hlive hselected
      exact .kept (readEntityInWorkUnit_upkeeps inv _ _ _ hunit hscope)
    · exact .kept (readEntity_upkeeps inv _ _ _)
  · rename_i prepared hat
    split
    · rename_i selected hselected
      exact .inUnit rfl hp hat hselected (commitEntityInWorkUnit_cases inv clock _)
    · rename_i hnone hrecord
      exact commitEntityIdempotent_moved hp hat hnone clock _ _
    · rename_i hnone hrecord
      exact commitEntity_moved hsound hp hat hnone clock
  · rename_i prepared resolutions hat
    split
    · rename_i selected hselected
      exact .published rfl hp hat hselected (publishWorkUnit_cases inv clock _)
    · exact .kept .refl
  · exact .kept (readEntity_upkeeps inv _ _ _)
  · exact .kept .refl

end Process

namespace World

/-- **An event** reads, commits, commits in a unit, or publishes. -/
theorem step_moved (hsound : w.Sound env) (event : Event) :
    Moved env w event (w.step env event).db := by
  cases event with
  | arrive request readings =>
    simp only [step]
    split <;> exact .kept .refl
  | advance i clock =>
    simp only [step]
    split
    · rename_i p hp
      exact Process.step_moved hsound hp clock
    · exact .kept .refl
  | read selection entityRef deadline now clock =>
    simp only [step, afterRead]
    split
    · rename_i hkey
      split
      · rename_i hselected _
        obtain ⟨hscope, hunit⟩ := selected_keyed hkey hselected
        exact .kept (readEntityInWorkUnit_upkeeps hsound.inv _ _ _ hunit hscope)
      · exact .kept (readEntity_upkeeps hsound.inv _ _ _)
      · exact .kept .refl
    · exact .kept .refl
  | retrieve selections query deadline now clock =>
    simp only [step, afterRetrieve]
    split
    · rename_i hkeys
      split
      · rename_i hselected _
        obtain ⟨selection, hmem, hone⟩ := selectedRetrievalWorkUnit_some hselected
        obtain ⟨hscope, hunit⟩ := selected_keyed (hkeys selection hmem).2 hone
        exact .kept (retrieveEntitiesInWorkUnit_upkeeps _ hsound.inv _ _ _ _ hunit
          (hscope.trans (hkeys selection hmem).1))
      · exact .kept (retrieveEntities_upkeeps _ _ _ _ _)
      · exact .kept .refl
    · exact .kept .refl
  | readChanges query => exact .kept (readChanges_upkeeps _ _ rfl)
  | crashInPrune query => exact .kept (notePrune_upkeeps _ _ rfl)
  | sweep now => exact .kept (sweep_upkeeps _ hsound.inv now)

end World

end Patchouli
