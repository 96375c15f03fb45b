import Patchouli.World.Views

/-!
# What processes have read

A mutation in flight holds what it made of an earlier state: its commit was prepared from a read
of its entity, its resolutions from the conflicts a commit reported. Other processes move the
tables between that state and now, so the state is kept as a fact about the run: there is an
earlier world in which the snapshot, or the conflicts, are what the tables say.

Runs are taken with a condition on their events, so that the same facts serve for runs that avoid
some event.

## Main definitions

* `EarlierWhen` — an earlier world of a run
* `Process.FromRead`, `Process.FromConflicts` — where a commit and resolutions come from
* `World.Informed`

## Main results

* `ReachableWhen.informed` — every mutation in flight is informed
-/

namespace Patchouli

open Db Relation

/-- A later world of a run whose events all meet a condition. -/
abbrev RunsWhen (env : Environment) (allowed : World → Event → Prop) : World → World → Prop :=
  ReflTransGen fun w w' => ∃ event, allowed w event ∧ w' = w.step env event

variable {env : Environment} {allowed : World → Event → Prop} {w w' : World}

theorem RunsWhen.runs (h : RunsWhen env allowed w w') : Runs env w w' :=
  ReflTransGen.mono (fun _ _ ⟨event, _, heq⟩ => ⟨event, heq⟩) _ _ h

/-- An earlier world of a run whose events all meet a condition. -/
structure EarlierWhen (env : Environment) (allowed : World → Event → Prop) (w₁ w : World) :
    Prop where
  reachable : ReachableWhen env allowed w₁
  runs : RunsWhen env allowed w₁ w

theorem EarlierWhen.step {w₁ : World} (h : EarlierWhen env allowed w₁ w) {event : Event}
    (hallowed : allowed w event) : EarlierWhen env allowed w₁ (w.step env event) :=
  ⟨h.reachable, h.runs.tail ⟨event, hallowed, rfl⟩⟩

namespace Process

variable (env allowed w) (i : ℕ) (p : Process)

/-- The snapshot is what the tables say of the entity of the mutation: in its unit, which is open
and has captured the entity, or published. -/
def HasRead (db : Db) (snapshot : Option EntitySnapshot) : Prop :=
  match p.admitted.workUnit with
  | none => snapshot = db.readEntitySnapshot (p.key env i)
  | some selected =>
    snapshot = db.readWorkUnitSnapshot selected.workUnit.identityJson (p.key env i) ∧
      (db.unitEntity? selected.workUnit.identityJson (p.key env i)).isSome ∧
      ∃ u ∈ db.workUnits, u.identityJson = selected.workUnit.identityJson ∧ u.state = .opened

/-- The commit was prepared from a read in an earlier world. -/
def FromRead (prepared : Patchouli.Prepared) : Prop :=
  ∃ w₁ snapshot, EarlierWhen env allowed w₁ w ∧ p.HasRead env i w₁.db snapshot ∧
    prepare env.automerge env.toText env.config (p.preparation env i) snapshot = .ok prepared

/-- The resolutions are of conflicts that an earlier world has. -/
def FromConflicts (resolutions : List WorkUnitResolution) : Prop :=
  ∃ w₁ conflicts selected, EarlierWhen env allowed w₁ w ∧ p.admitted.workUnit = some selected ∧
    w₁.db.publicationConflicts selected.workUnit.identityJson = .ok conflicts ∧
    resolvePublicationConflicts env.automerge env.toText env.config (env.fresh i)
      p.readings.resolved conflicts = .ok resolutions

/-- Where what a process holds comes from. -/
def Informed : Prop :=
  match p.stage with
  | .commit prepared => p.FromRead env allowed w i prepared
  | .publish prepared resolutions | .reread prepared resolutions =>
    p.FromRead env allowed w i prepared ∧ p.FromConflicts env allowed w i resolutions
  | .answered _ (.sent prepared resolutions) =>
    p.FromRead env allowed w i prepared ∧
      (resolutions = [] ∨ p.FromConflicts env allowed w i resolutions)
  | _ => True

variable {env allowed w i p}

theorem FromRead.step {prepared : Patchouli.Prepared} (h : p.FromRead env allowed w i prepared)
    {event : Event} (hallowed : allowed w event) :
    p.FromRead env allowed (w.step env event) i prepared := by
  obtain ⟨w₁, snapshot, hearlier, hread⟩ := h
  exact ⟨w₁, snapshot, hearlier.step hallowed, hread⟩

theorem FromConflicts.step {resolutions : List WorkUnitResolution}
    (h : p.FromConflicts env allowed w i resolutions) {event : Event} (hallowed : allowed w event) :
    p.FromConflicts env allowed (w.step env event) i resolutions := by
  obtain ⟨w₁, conflicts, selected, hearlier, hrest⟩ := h
  exact ⟨w₁, conflicts, selected, hearlier.step hallowed, hrest⟩

theorem Informed.step (h : p.Informed env allowed w i) {event : Event} (hallowed : allowed w event) :
    p.Informed env allowed (w.step env event) i := by
  unfold Informed at *
  split at h
  · exact h.step hallowed
  · exact ⟨h.1.step hallowed, h.2.step hallowed⟩
  · exact ⟨h.1.step hallowed, h.2.step hallowed⟩
  · exact ⟨h.1.step hallowed, h.2.imp_right fun hconflicts => hconflicts.step hallowed⟩
  · trivial

/-! ### Replies -/

theorem consistentValue_eq_ok {α : Type} {read : ConsistentRead α} {value : α}
    (h : consistentValue read = .ok value) : ∃ observation, read = .read value observation := by
  cases read with
  | read value' observation =>
    simp only [consistentValue, Except.ok.injEq] at h
    exact ⟨observation, by rw [h]⟩
  | unavailable => simp [consistentValue] at h

theorem workUnitValue_eq_ok {α : Type} {outcome : WorkUnitOutcome α} {value : α}
    (h : workUnitValue outcome = .ok value) :
    ∃ observation, outcome = .opened (.read value observation) := by
  cases outcome with
  | opened read =>
    obtain ⟨observation, rfl⟩ := consistentValue_eq_ok h
    exact ⟨observation, rfl⟩
  | closing => simp [workUnitValue] at h
  | policyMismatch => simp [workUnitValue] at h
  | committed => simp [workUnitValue] at h
  | expired => simp [workUnitValue] at h

/-- A published read, as its tables are left. -/
theorem hasRead_published {db : Db} (inv : Inv env.automerge db)
    (hnone : p.admitted.workUnit = none) {clock : Clock} {consistency : ReadConsistency}
    {snapshot : Option EntitySnapshot}
    (h : ((readEntity db clock (p.key env i) consistency).outcome.mapError
      providerBackendError).bind consistentValue = .ok snapshot) :
    p.HasRead env i (readEntity db clock (p.key env i) consistency).db snapshot := by
  obtain ⟨read, hread, hvalue⟩ := Except.bind_eq_ok.mp h
  obtain ⟨observation, rfl⟩ := consistentValue_eq_ok hvalue
  obtain ⟨swept, -, rfl, -, hdb⟩ := readEntity_served inv (Except.mapError_eq_ok.mp hread)
  simp only [HasRead, hnone, hdb]
  rfl

/-- A read in a unit, as its tables are left. -/
theorem hasRead_inWorkUnit {db : Db} (inv : Inv env.automerge db) {selected : SelectedWorkUnit}
    (hselected : p.admitted.workUnit = some selected)
    (hscope : selected.workUnit.scopeJson = (p.key env i).scopeJson) {clock : Clock}
    {consistency : ReadConsistency} {snapshot : Option EntitySnapshot}
    (h : ((readEntityInWorkUnit db clock selected.workUnit (p.key env i) consistency).outcome.mapError
      providerBackendError).bind workUnitValue = .ok snapshot) :
    p.HasRead env i (readEntityInWorkUnit db clock selected.workUnit (p.key env i) consistency).db
      snapshot := by
  obtain ⟨read, hread, hvalue⟩ := Except.bind_eq_ok.mp h
  obtain ⟨observation, rfl⟩ := workUnitValue_eq_ok hvalue
  obtain ⟨swept, base, captured, row, hreads, hcapture, rfl, -, hdb⟩ :=
    readEntityInWorkUnit_served inv (Except.mapError_eq_ok.mp hread)
  obtain ⟨-, inv', hmem, hid, hrowscope, hopen⟩ :=
    hreads.base (K := Known.anything) inv trivial
  obtain ⟨entities, bases, hcapture', -, hsome⟩ := inv'.captured hmem (hrowscope.trans hscope)
  rw [hid, hcapture, Except.ok.injEq] at hcapture'
  rw [hid, ← hcapture'] at hsome
  simp only [HasRead, hselected, hdb]
  refine ⟨rfl, hsome, row, ?_, hid, hopen⟩
  show row ∈ captured.workUnits
  rw [hcapture']
  exact hmem

variable (env i p) in
/-- The reply to the read of an entity, and the tables it leaves. -/
def readReply (clock : Clock) (db : Db) : Except BackendError (Option EntitySnapshot) × Db :=
  match p.admitted.workUnit with
  | some selected =>
    let reply := readEntityInWorkUnit db clock selected.workUnit (p.key env i)
      p.admitted.consistency
    ((reply.outcome.mapError providerBackendError).bind workUnitValue, reply.db)
  | none =>
    let reply := readEntity db clock (p.key env i) p.admitted.consistency
    ((reply.outcome.mapError providerBackendError).bind consistentValue, reply.db)

theorem step_read (hat : p.stage = .read) (clock : Clock) (db : Db) :
    p.step env i clock db =
      (p.readBack env i (p.readReply env i clock db).1, (p.readReply env i clock db).2) := by
  unfold step readReply
  rw [hat]
  dsimp only
  cases p.admitted.workUnit <;> rfl

/-- A read returns what the tables it leaves say. -/
theorem readReply_hasRead (hsound : w.Sound env) (hp : w.processes[i]? = some p)
    (hat : p.stage = .read) {clock : Clock} {snapshot : Option EntitySnapshot}
    (h : (p.readReply env i clock w.db).1 = .ok snapshot) :
    p.HasRead env i (p.readReply env i clock w.db).2 snapshot := by
  have hps := hsound.processes i p hp
  have hlive : ∀ outcome route, p.stage ≠ .answered outcome route := by simp [hat]
  unfold readReply at h ⊢
  split at h
  · rename_i selected hselected
    exact hasRead_inWorkUnit hsound.inv hselected (hps.workUnit hlive hselected).1 h
  · rename_i hnone
    exact hasRead_published hsound.inv hnone h

theorem readBack_informed (hreach : ReachableWhen env allowed w)
    {outcome : Except BackendError (Option EntitySnapshot)}
    (h : ∀ snapshot, outcome = .ok snapshot → p.HasRead env i w.db snapshot) :
    (p.readBack env i outcome).Informed env allowed w i := by
  unfold readBack
  split
  · trivial
  · rename_i snapshot
    split
    · trivial
    · rename_i prepared hprepare
      exact ⟨w, snapshot, ⟨hreach, .refl⟩, h snapshot rfl, hprepare⟩

variable {prepared : Patchouli.Prepared} {resolutions : List WorkUnitResolution}

theorem committedInWorkUnit_informed (hreach : ReachableWhen env allowed w)
    (hread : p.FromRead env allowed w i prepared) {selected : SelectedWorkUnit}
    (hselected : p.admitted.workUnit = some selected)
    {outcome : Except ProviderError WorkUnitCommitOutcome}
    (h : ∀ conflicts, outcome = .ok (.publicationConflict conflicts) →
      w.db.publicationConflicts selected.workUnit.identityJson = .ok conflicts) :
    (p.committedInWorkUnit env i prepared outcome).Informed env allowed w i := by
  unfold committedInWorkUnit
  split
  · exact ⟨hread, Or.inl rfl⟩
  · rename_i conflicts
    split
    · exact ⟨hread, Or.inl rfl⟩
    · rename_i resolutions hresolutions
      exact ⟨hread, w, conflicts, selected, ⟨hreach, .refl⟩, hselected, h conflicts rfl, hresolutions⟩
  · exact ⟨hread, Or.inl rfl⟩

theorem committedIdempotent_informed (hread : p.FromRead env allowed w i prepared)
    (outcome : Except ProviderError IdempotentCommitOutcome) :
    (p.committedIdempotent prepared outcome).Informed env allowed w i := by
  unfold committedIdempotent
  split
  · exact ⟨hread, Or.inl rfl⟩
  · exact ⟨hread, Or.inl rfl⟩
  · exact ⟨hread, Or.inl rfl⟩
  · trivial
  · exact ⟨hread, Or.inl rfl⟩

theorem committed_informed (hread : p.FromRead env allowed w i prepared)
    (outcome : Except ProviderError EntityCommitOutcome) :
    (p.committed prepared outcome).Informed env allowed w i := by
  unfold committed
  split <;> exact ⟨hread, Or.inl rfl⟩

theorem published_informed (hread : p.FromRead env allowed w i prepared)
    (hconflicts : p.FromConflicts env allowed w i resolutions)
    (outcome : Except ProviderError WorkUnitCommitOutcome) :
    (p.published prepared resolutions outcome).Informed env allowed w i := by
  unfold published
  split
  · exact ⟨hread, Or.inr hconflicts⟩
  · exact ⟨hread, hconflicts⟩
  · exact ⟨hread, Or.inr hconflicts⟩

theorem identified_informed (outcome : Except ProviderError IdempotencyReadOutcome) :
    (p.identified env outcome).Informed env allowed w i := by
  unfold identified
  split
  · trivial
  · unfold beginRead
    split <;> trivial
  · trivial
  · trivial
  · trivial

/-- The conflicts a commit reports are those of the tables it leaves. -/
theorem reported_conflicts {A : Automerge} {db : Db} (inv : Inv A db) {clock : Clock}
    {entity : WorkUnitCommit} {conflicts : List WorkUnitConflict}
    (h : (commitEntityInWorkUnit db clock entity).outcome = .ok (.publicationConflict conflicts)) :
    (commitEntityInWorkUnit db clock entity).db.publicationConflicts entity.workUnit.identityJson =
      .ok conflicts := by
  have hcases := commitEntityInWorkUnit_cases inv clock entity
  rw [h] at hcases
  generalize (commitEntityInWorkUnit db clock entity).db = new at hcases
  cases hcases with
  | refused _ hrefused => exact absurd rfl (hrefused.2.2 conflicts)
  | closed _ _ _ _ h =>
    cases h with
    | reported h => exact h
  | joined _ _ _ h =>
    cases h with
    | reported h => exact h

/-- **A step leaves a process informed.** -/
theorem Informed.advance (h : p.Informed env allowed w i) (hsound : w.Sound env)
    (hp : w.processes[i]? = some p) {clock : Clock} (hallowed : allowed w (.advance i clock))
    (hreach : ReachableWhen env allowed (w.step env (.advance i clock))) :
    (p.step env i clock w.db).1.Informed env allowed (w.step env (.advance i clock)) i := by
  have hstage := h.step hallowed
  have hdb : (w.step env (.advance i clock)).db = (p.step env i clock w.db).2 := by
    simp only [World.step, hp]
  have hps := hsound.processes i p hp
  have inv := hsound.inv
  revert hdb
  unfold Process.step
  split
  · intro _
    exact identified_informed _
  · rename_i hat
    have hlive : ∀ outcome route, p.stage ≠ .answered outcome route := by simp [hat]
    split
    · rename_i selected hselected
      intro hdb
      refine readBack_informed hreach fun snapshot hsnapshot => ?_
      rw [hdb]
      exact hasRead_inWorkUnit inv hselected (hps.workUnit hlive hselected).1 hsnapshot
    · rename_i hnone
      intro hdb
      refine readBack_informed hreach fun snapshot hsnapshot => ?_
      rw [hdb]
      exact hasRead_published inv hnone hsnapshot
  · rename_i prepared hat
    simp only [Informed, hat] at hstage
    split
    · rename_i selected hselected
      intro hdb
      refine committedInWorkUnit_informed hreach hstage hselected fun conflicts hconflicts => ?_
      rw [hdb]
      exact reported_conflicts inv hconflicts
    · exact fun _ => committedIdempotent_informed hstage _
    · exact fun _ => committed_informed hstage _
  · rename_i prepared resolutions hat
    have hstage' := hstage
    simp only [Informed, hat] at hstage
    split
    · exact fun _ => published_informed hstage.1 hstage.2 _
    · exact fun _ => hstage'
  · rename_i prepared resolutions hat
    simp only [Informed, hat] at hstage
    exact fun _ => ⟨hstage.1, Or.inr hstage.2⟩
  · exact fun _ => hstage

end Process

/-! ### Worlds -/

/-- Every mutation in flight is informed. -/
def World.Informed (env : Environment) (allowed : World → Event → Prop) (w : World) : Prop :=
  ∀ (i : ℕ) p, w.processes[i]? = some p → p.Informed env allowed w i

/-- **Every mutation in flight is informed.** -/
theorem ReachableWhen.informed (hlaw : env.automerge.Lawful) (h : ReachableWhen env allowed w) :
    w.Informed env allowed := by
  induction h with
  | start =>
    intro i p hp
    simp [World.start] at hp
  | @step w event hbefore hallowed ih =>
    have hsound := Reachable.sound hlaw hbefore.reachable
    have hreach := ReachableWhen.step event hbefore hallowed
    intro i p' hp'
    rcases World.process_step hp' with
      hp | ⟨clock, p, rfl, hp, rfl⟩ | ⟨request, readings, -, -, rfl⟩
    · exact (ih i p' hp).step hallowed
    · exact (ih i p hp).advance hsound hp hallowed hreach
    · unfold Request.arrive Process.refuse Process.beginRead
      dsimp only
      split
      · trivial
      · split
        · trivial
        · split <;> trivial

end Patchouli
