import Patchouli.World.Origins
import Patchouli.World.Informed

/-!
# What every stored version satisfies

A version is written once, by the process that made it, and never rewritten. So a property of
versions holds of all rows as soon as it holds of what processes make: of the commit that a read
leads to, and of the resolutions that a reported conflict leads to. Both are made of versions that
are stored already, and that is the induction of this module.

## Main definitions

* `Process.Makes` — every version a process holds has the property
* `World.Rows` — every stored version has the property
* `MakesOnly` — what has to be shown of reads and of conflicts

## Main results

* `ReachableWhen.makes` — then it holds of every process and of every row
-/

namespace Patchouli

open Db Relation

variable {env : Environment} {allowed : World → Event → Prop} {w : World}
  {Q : EntityKey → StoredEntityVersion → Prop}

/-! ### Processes -/

namespace Process

/-- Every version a process holds has the property; the value of a mutation that is about to read
is valid. -/
def Makes (env : Environment) (Q : EntityKey → StoredEntityVersion → Prop) (p : Process) : Prop :=
  match p.stage with
  | .read => validateMutation env.config p.request.mutation = .ok ()
  | .commit prepared => ∀ v ∈ prepared.commit.newVersions, Q prepared.commit.key v
  | .publish prepared resolutions | .reread prepared resolutions
  | .answered _ (.sent prepared resolutions) =>
    (∀ v ∈ prepared.commit.newVersions, Q prepared.commit.key v) ∧
      ∀ r ∈ resolutions, ∀ v ∈ r.entity.newVersions, Q r.entity.key v
  | _ => True

variable {i : ℕ} {p : Process} {clock : Clock} {db : Db}

/-- What a step may store, the process holds. -/
theorem Makes.brings (h : p.Makes env Q) {key : EntityKey} {v : StoredEntityVersion}
    (hv : (p.brings env).version key v) : Q key v := by
  unfold Makes at h
  dsimp only [Process.brings] at hv
  split at hv
  · rename_i prepared hat
    rw [hat] at h
    exact hv.1 ▸ h v hv.2
  · rename_i prepared resolutions hat
    rw [hat] at h
    obtain ⟨r, hr, rfl, hmem⟩ := hv
    exact h.2 r hr v hmem
  · exact hv.elim

theorem Makes.beginRead (env : Environment) (Q : EntityKey → StoredEntityVersion → Prop)
    (p : Process) : (p.beginRead env).Makes env Q := by
  unfold Process.beginRead
  split
  · rename_i hvalid
    exact hvalid
  · trivial

end Process

/-! ### Worlds -/

/-- Every stored version has the property. -/
def World.Rows (Q : EntityKey → StoredEntityVersion → Prop) (w : World) : Prop :=
  ∀ r ∈ w.db.versions, ∃ v, Q r.key v ∧ r.Stores v

/-- What has to be shown: what is prepared of a snapshot has the property, and so have the
resolutions of conflicts, where all that is stored has it. -/
structure MakesOnly (env : Environment) (allowed : World → Event → Prop)
    (Q : EntityKey → StoredEntityVersion → Prop) : Prop where
  read : ∀ {w : World} {i : ℕ} {clock : Clock} {p : Process} {snapshot : Option EntitySnapshot}
    {prepared : Prepared},
    ReachableWhen env allowed w → allowed w (.advance i clock) →
    (w.step env (.advance i clock)).Rows Q →
    w.processes[i]? = some p → p.stage = .read →
    validateMutation env.config p.request.mutation = .ok () →
    (p.readReply env i clock w.db).1 = .ok snapshot →
    p.HasRead env i (w.step env (.advance i clock)).db snapshot →
    prepare env.automerge env.toText env.config (p.preparation env i) snapshot = .ok prepared →
    ∀ v ∈ prepared.commit.newVersions, Q prepared.commit.key v
  resolve : ∀ {w : World} {i : ℕ} {clock : Clock} {p : Process} {selected : SelectedWorkUnit}
    {conflicts : List WorkUnitConflict} {resolutions : List WorkUnitResolution},
    ReachableWhen env allowed w → allowed w (.advance i clock) →
    (w.step env (.advance i clock)).Rows Q →
    w.processes[i]? = some p → p.admitted.workUnit = some selected →
    (w.step env (.advance i clock)).db.publicationConflicts selected.workUnit.identityJson =
      .ok conflicts →
    resolvePublicationConflicts env.automerge env.toText env.config (env.fresh i)
      p.readings.resolved conflicts = .ok resolutions →
    ∀ r ∈ resolutions, ∀ v ∈ r.entity.newVersions, Q r.entity.key v

/-- An event stores only what a process held. -/
theorem World.Rows.step (hlaw : env.automerge.Lawful) (hsound : w.Sound env) (h : w.Rows Q)
    (hmakes : ∀ (i : ℕ) p, w.processes[i]? = some p → p.Makes env Q) (event : Event) :
    (w.step env event).Rows Q := by
  intro r hr
  cases Effects.rowFrom hlaw hsound.inv (World.step_effects hlaw hsound event) r hr with
  | kept hold => exact h r hold
  | published hold hunit hcommitted heq =>
    obtain ⟨v, hv, hstores⟩ := h _ hold
    subst heq
    exact ⟨v, hv, ⟨hstores.version, hstores.state, hstores.value⟩⟩
  | @brought v hbrought hstores =>
    refine ⟨v, ?_, hstores⟩
    cases event with
    | advance i clock =>
      obtain ⟨p, hp, hbrings⟩ := hbrought
      exact (hmakes i p hp).brings hbrings
    | arrive => exact hbrought.elim
    | read => exact hbrought.elim
    | retrieve => exact hbrought.elim
    | readChanges => exact hbrought.elim
    | crashInPrune => exact hbrought.elim
    | sweep => exact hbrought.elim

/-- **A step leaves a process with such versions only.** -/
theorem Process.Makes.advance (honly : MakesOnly env allowed Q) {i : ℕ} {p : Process}
    (h : p.Makes env Q) (hsound : w.Sound env) (hreach : ReachableWhen env allowed w)
    (hp : w.processes[i]? = some p) {clock : Clock} (hallowed : allowed w (.advance i clock))
    (hrows : (w.step env (.advance i clock)).Rows Q) :
    (p.step env i clock w.db).1.Makes env Q := by
  have hdb : (w.step env (.advance i clock)).db = (p.step env i clock w.db).2 := by
    simp only [World.step, hp]
  cases hat : p.stage with
  | identify identity =>
    unfold Process.step
    rw [hat]
    dsimp only
    unfold Process.identified
    split
    · trivial
    · exact Process.Makes.beginRead env Q p
    · trivial
    · trivial
    · trivial
  | read =>
    have hvalid : validateMutation env.config p.request.mutation = .ok () := by
      simpa only [Process.Makes, hat] using h
    rw [Process.step_read hat] at hdb ⊢
    cases hreply : (p.readReply env i clock w.db).1 with
    | error error => trivial
    | ok snapshot =>
      have hread := hdb ▸ Process.readReply_hasRead hsound hp hat hreply
      unfold Process.readBack
      dsimp only
      split
      · trivial
      · rename_i prepared hprepare
        exact honly.read hreach hallowed hrows hp hat hvalid hreply hread hprepare
  | commit prepared =>
    simp only [Process.Makes, hat] at h
    revert hdb
    unfold Process.step
    rw [hat]
    dsimp only
    split
    · rename_i selected hselected
      intro hdb
      unfold Process.committedInWorkUnit
      split
      · exact ⟨h, by simp⟩
      · rename_i conflicts hconflicts
        split
        · exact ⟨h, by simp⟩
        · rename_i resolutions hresolutions
          refine ⟨h, honly.resolve hreach hallowed hrows hp hselected ?_ hresolutions⟩
          rw [hdb]
          exact Process.reported_conflicts hsound.inv hconflicts
      · exact ⟨h, by simp⟩
    · intro _
      unfold Process.committedIdempotent
      split
      · exact ⟨h, by simp⟩
      · exact ⟨h, by simp⟩
      · exact ⟨h, by simp⟩
      · trivial
      · exact ⟨h, by simp⟩
    · intro _
      unfold Process.committed
      split <;> exact ⟨h, by simp⟩
  | publish prepared resolutions =>
    have hsame := h
    simp only [Process.Makes, hat] at h
    unfold Process.step
    rw [hat]
    dsimp only
    split
    · unfold Process.published
      split <;> exact h
    · exact hsame
  | reread prepared resolutions =>
    simp only [Process.Makes, hat] at h
    unfold Process.step
    rw [hat]
    exact h
  | answered outcome route =>
    rw [Process.step_answered env i hat]
    exact h

/-- **A property of all that processes make is one of all that is stored.** -/
theorem ReachableWhen.makes (hlaw : env.automerge.Lawful) (honly : MakesOnly env allowed Q)
    (h : ReachableWhen env allowed w) :
    w.Rows Q ∧ ∀ (i : ℕ) p, w.processes[i]? = some p → p.Makes env Q := by
  induction h with
  | start => exact ⟨fun r hr => absurd hr List.not_mem_nil, fun i p hp => by simp [World.start] at hp⟩
  | @step w event hbefore hallowed ih =>
    have hsound := Reachable.sound hlaw hbefore.reachable
    have hrows := ih.1.step hlaw hsound ih.2 event
    refine ⟨hrows, fun i p' hp' => ?_⟩
    rcases World.process_step hp' with
      hp | ⟨clock, p, rfl, hp, rfl⟩ | ⟨request, readings, -, -, rfl⟩
    · exact ih.2 i p' hp
    · exact (ih.2 i p hp).advance honly hsound hbefore hp hallowed hrows
    · unfold Request.arrive
      dsimp only
      split
      · trivial
      · split
        · trivial
        · exact Process.Makes.beginRead env Q _

end Patchouli
