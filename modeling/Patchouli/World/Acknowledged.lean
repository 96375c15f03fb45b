import Patchouli.Sqlite.Landed
import Patchouli.World.Visible

/-!
# Acknowledged mutations are not lost

A mutation that is answered with success has stored its versions, and what it stored is published:
at once, or with its unit. The exception is a closing commit that comes to its unit while another
call is closing it. The provider reports the conflicts of the unit and leaves the entity of the call
out; the engine resolves them, publishes the unit and answers with success.

## Main definitions

* `World.JoinsClosing` — a closing commit comes to a unit that is closing
* `Process.Early` — a mutation that has not committed anything
* `Process.Landed` — where the versions of a mutation in flight are

## Main results

* `acknowledged_versions_published` — in runs without such a commit, nothing acknowledged is lost
* `joined_creation_is_lost` — and with one it is
-/

namespace Patchouli

open Db Relation

variable {env : Environment} {w w' : World} {unit : String} {key : EntityKey}
  {v : StoredEntityVersion}

/-- A closing commit comes to a unit that another call is closing. -/
def World.JoinsClosing (w : World) (event : Event) : Prop :=
  ∃ i clock p prepared selected, event = .advance i clock ∧ w.processes[i]? = some p ∧
    p.stage = .commit prepared ∧ p.admitted.workUnit = some selected ∧ selected.close = true ∧
      w.db.ClosingAt clock selected.workUnit

/-- The version was staged in the unit, or published, in this world or before. -/
def World.HasLanded (env : Environment) (w : World) (unit : String) (key : EntityKey)
    (v : StoredEntityVersion) : Prop :=
  ∃ w₁, Reachable env w₁ ∧ Runs env w₁ w ∧ w₁.db.HasLanded unit key v

theorem World.HasLanded.runs (h : w.HasLanded env unit key v) (hruns : Runs env w w') :
    w'.HasLanded env unit key v := by
  obtain ⟨w₁, hreach, hbefore, hlanded⟩ := h
  exact ⟨w₁, hreach, hbefore.trans hruns, hlanded⟩

/-- What has landed is published with its unit. -/
theorem World.HasLanded.publishes (hlaw : env.automerge.Lawful) (h : w.HasLanded env unit key v)
    (hcommitted : w.db.Committed unit) : w.db.PublishesVersion key v := by
  obtain ⟨w₁, hreach, hruns, hlanded⟩ := h
  exact hlanded.publishes (hruns.extends hlaw hreach) ((hruns.reachable hreach).sound hlaw).inv
    hcommitted

/-- What is committed stays so. -/
theorem Runs.committed (hlaw : env.automerge.Lawful) (h : Runs env w w') (hreach : Reachable env w)
    (hcommitted : w.db.Committed unit) : w'.db.Committed unit :=
  Effects.committed hlaw (hreach.sound hlaw).inv (h.effects hlaw hreach) hcommitted

/-! ### Mutations that committed nothing -/

namespace Process

variable {i : ℕ} {p : Process} {clock : Clock}

/-- The mutation has not committed anything. -/
def Early (p : Process) : Prop :=
  match p.stage with
  | .publish _ _ | .reread _ _ | .answered _ (.sent _ _) => False
  | _ => True

theorem beginRead_early : (p.beginRead env).Early := by
  unfold beginRead
  split <;> trivial

theorem identified_early (outcome : Except ProviderError IdempotencyReadOutcome) :
    (p.identified env outcome).Early := by
  unfold identified
  split
  · trivial
  · exact beginRead_early
  · trivial
  · trivial
  · trivial

theorem readBack_early (outcome : Except BackendError (Option EntitySnapshot)) :
    (p.readBack env i outcome).Early := by
  unfold readBack
  split
  · trivial
  · split <;> trivial

/-- Before its commit, a mutation commits nothing. -/
theorem step_early (env : Environment) (i : ℕ) (clock : Clock) (db : Db)
    (h : (∃ identity, p.stage = .identify identity) ∨ p.stage = .read) :
    (p.step env i clock db).1.Early := by
  rcases h with ⟨identity, hat⟩ | hat
  · simp only [Process.step, hat]
    exact identified_early _
  · simp only [Process.step, hat]
    split <;> exact readBack_early _

end Process

theorem Request.arrive_early (request : Request) (readings : Readings) :
    (request.arrive env readings).Early := by
  unfold Request.arrive
  dsimp only
  split
  · trivial
  · split
    · trivial
    · exact Process.beginRead_early

/-! ### Mutations in flight -/

namespace Process

variable {i : ℕ} {p : Process} {clock : Clock}

/-- Where the versions of a mutation in flight are. -/
def Landed (env : Environment) (w : World) (p : Process) : Prop :=
  match p.stage with
  | .publish prepared _ => ∃ selected, p.admitted.workUnit = some selected ∧
      ∀ v ∈ prepared.commit.newVersions,
        w.HasLanded env selected.workUnit.identityJson prepared.commit.key v
  | .reread prepared _ => ∃ selected, p.admitted.workUnit = some selected ∧
      w.db.Committed selected.workUnit.identityJson ∧ ∀ v ∈ prepared.commit.newVersions,
        w.HasLanded env selected.workUnit.identityJson prepared.commit.key v
  | .answered (.ok _) (.sent prepared _) =>
    match p.admitted.workUnit with
    | none => ∀ v ∈ prepared.commit.newVersions, w.db.PublishesVersion prepared.commit.key v
    | some selected =>
      (selected.close = true → w.db.Committed selected.workUnit.identityJson) ∧
        ∀ v ∈ prepared.commit.newVersions,
          w.HasLanded env selected.workUnit.identityJson prepared.commit.key v
  | _ => True

theorem Landed.runs (hlaw : env.automerge.Lawful) (h : p.Landed env w) (hruns : Runs env w w')
    (hreach : Reachable env w) : p.Landed env w' := by
  unfold Landed at *
  split at h
  · obtain ⟨selected, hselected, hlanded⟩ := h
    exact ⟨selected, hselected, fun v hv => (hlanded v hv).runs hruns⟩
  · obtain ⟨selected, hselected, hcommitted, hlanded⟩ := h
    exact ⟨selected, hselected, hruns.committed hlaw hreach hcommitted,
      fun v hv => (hlanded v hv).runs hruns⟩
  · split at h
    · exact fun v hv => (h v hv).extends (hruns.extends hlaw hreach)
    · exact ⟨fun hclose => hruns.committed hlaw hreach (h.1 hclose),
        fun v hv => (h.2 v hv).runs hruns⟩
  · trivial

theorem Early.landed (h : p.Early) : p.Landed env w := by
  obtain ⟨request, readings, admitted, stage⟩ := p
  cases stage with
  | publish prepared resolutions => exact absurd h not_false
  | reread prepared resolutions => exact absurd h not_false
  | answered outcome route =>
    cases route with
    | sent prepared resolutions => exact absurd h not_false
    | _ => cases outcome <;> trivial
  | _ => trivial

variable {prepared : Patchouli.Prepared} {resolutions : List WorkUnitResolution}

theorem committed_landed (hnone : p.admitted.workUnit = none)
    {outcome : Except ProviderError EntityCommitOutcome}
    (h : outcome = .ok .committed →
      ∀ v ∈ prepared.commit.newVersions, w.db.PublishesVersion prepared.commit.key v) :
    (p.committed prepared outcome).Landed env w := by
  unfold committed
  split
  · trivial
  · simp only [answer, Landed, hnone]
    exact h rfl
  · trivial

theorem committedIdempotent_landed (hnone : p.admitted.workUnit = none)
    {outcome : Except ProviderError IdempotentCommitOutcome}
    (h : outcome = .ok .committed →
      ∀ v ∈ prepared.commit.newVersions, w.db.PublishesVersion prepared.commit.key v) :
    (p.committedIdempotent prepared outcome).Landed env w := by
  unfold committedIdempotent
  split
  · trivial
  · simp only [answer, Landed, hnone]
    exact h rfl
  · trivial
  · trivial
  · trivial

variable {selected : SelectedWorkUnit}

/-- A mutation whose unit is committed may be answered. -/
theorem answer_landed (hselected : p.admitted.workUnit = some selected)
    (hcommitted : w.db.Committed selected.workUnit.identityJson)
    (hlanded : ∀ v ∈ prepared.commit.newVersions,
      w.HasLanded env selected.workUnit.identityJson prepared.commit.key v)
    (outcome : Except BackendError MutationResult) :
    (p.answer prepared resolutions outcome).Landed env w := by
  cases outcome with
  | error error => trivial
  | ok result =>
    simp only [answer, Landed, hselected]
    exact ⟨fun _ => hcommitted, hlanded⟩

/-- Only a unit that staged the versions or published them is answered with success. -/
theorem committedInWorkUnit_landed (hselected : p.admitted.workUnit = some selected)
    {outcome : Except ProviderError WorkUnitCommitOutcome}
    (h : ∀ o, outcome = .ok o → ¬ o.Refused →
      (∀ v ∈ prepared.commit.newVersions,
        w.HasLanded env selected.workUnit.identityJson prepared.commit.key v) ∧
      (o = .published → w.db.Committed selected.workUnit.identityJson) ∧
      (o = .staged → selected.close = false)) :
    (p.committedInWorkUnit env i prepared outcome).Landed env w := by
  unfold committedInWorkUnit
  split
  · trivial
  · rename_i conflicts
    obtain ⟨hlanded, -⟩ := h _ rfl (by simp [WorkUnitCommitOutcome.Refused])
    split
    · trivial
    · exact ⟨selected, hselected, hlanded⟩
  · rename_i outcome hother
    cases outcome with
    | staged =>
      obtain ⟨hlanded, -, hstaged⟩ := h _ rfl (by simp [WorkUnitCommitOutcome.Refused])
      simp only [answer, Landed, hselected, mapWorkUnitOutcome, Except.map]
      exact ⟨fun hclose => by simp [hstaged rfl] at hclose, hlanded⟩
    | published =>
      obtain ⟨hlanded, hpublished, -⟩ := h _ rfl (by simp [WorkUnitCommitOutcome.Refused])
      exact answer_landed hselected (hpublished rfl) hlanded _
    | publicationConflict conflicts => exact absurd rfl (hother conflicts)
    | _ => trivial

theorem published_landed (hselected : p.admitted.workUnit = some selected)
    {outcome : Except ProviderError WorkUnitCommitOutcome} (hstaged : outcome ≠ .ok .staged)
    (hcommitted : outcome = .ok .published → w.db.Committed selected.workUnit.identityJson)
    (hlanded : ∀ v ∈ prepared.commit.newVersions,
      w.HasLanded env selected.workUnit.identityJson prepared.commit.key v) :
    (p.published prepared resolutions outcome).Landed env w := by
  unfold published
  split
  · trivial
  · exact ⟨selected, hselected, hcommitted rfl, hlanded⟩
  · rename_i outcome hpublished
    cases outcome with
    | staged => exact absurd rfl hstaged
    | published => exact absurd rfl hpublished
    | _ => trivial

/-- **A step of a mutation** that does not join a unit that is closing stores its versions, or is not
answered with success. -/
theorem Landed.advance (hlaw : env.automerge.Lawful) (h : p.Landed env w)
    (hreach : Reachable env w) (hp : w.processes[i]? = some p)
    (hnot : ¬ w.JoinsClosing (.advance i clock)) :
    (p.step env i clock w.db).1.Landed env (w.step env (.advance i clock)) := by
  have hsound := hreach.sound hlaw
  have inv := hsound.inv
  have hps := hsound.processes i p hp
  have hnext : Runs env w (w.step env (.advance i clock)) := .single ⟨_, rfl⟩
  have hreach' := hnext.reachable hreach
  have hdb : (w.step env (.advance i clock)).db = (p.step env i clock w.db).2 := by
    simp only [World.step, hp]
  have hhere : ∀ {unit key v}, (p.step env i clock w.db).2.HasLanded unit key v →
      (w.step env (.advance i clock)).HasLanded env unit key v :=
    fun hlanded => ⟨_, hreach', .refl, hdb ▸ hlanded⟩
  have hstage := hps.stage
  have hlater := h.runs hlaw hnext hreach
  cases hat : p.stage with
  | identify identity => exact (step_early env i clock w.db (Or.inl ⟨identity, hat⟩)).landed
  | read => exact (step_early env i clock w.db (Or.inr hat)).landed
  | commit prepared =>
    simp only [Process.StageSound, hat] at hstage
    obtain ⟨heads, hprepares⟩ := Process.Prepared.prepares hlaw hstage
    obtain ⟨-, hscope⟩ := Process.Prepares.scope_eq hprepares
    have hlive : ∀ outcome route, p.stage ≠ .answered outcome route := by simp [hat]
    cases hselected : p.admitted.workUnit with
    | none =>
      cases hrecord : prepared.record with
      | none =>
        simp only [Process.step, hat, hselected, hrecord] at hdb ⊢
        refine committed_landed hselected fun hdone => ?_
        rw [hdb]
        exact commitEntity_publishes hlaw inv hprepares.formed hdone
      | some record =>
        simp only [Process.step, hat, hselected, hrecord] at hdb ⊢
        refine committedIdempotent_landed hselected fun hdone => ?_
        rw [hdb]
        exact commitEntityIdempotent_publishes hlaw inv hprepares.formed hdone
    | some selected =>
      simp only [Process.step, hat, hselected] at hdb hhere ⊢
      refine committedInWorkUnit_landed hselected fun outcome hdone hrefused => ?_
      have hcases := commitEntityInWorkUnit_cases inv clock (p.workUnitCommit selected prepared)
      rw [hdone] at hcases
      obtain ⟨hlanded, hpublished, hstaged⟩ := hcases.lands hlaw inv hprepares.formed
        ((hps.workUnit hlive hselected).1.trans hscope.symm)
        (fun hjoins => hnot ⟨i, clock, p, prepared, selected, rfl, hp, hat, hselected, hjoins⟩)
        hrefused
      exact ⟨fun v hv => hhere (hlanded v hv), fun hdone => hdb ▸ hpublished hdone, hstaged⟩
  | publish prepared resolutions =>
    simp only [Process.StageSound, hat] at hstage
    simp only [Landed, hat] at hlater
    obtain ⟨selected, hselected, hlanded⟩ := hlater
    simp only [Process.step, hat, hselected] at hdb ⊢
    refine published_landed hselected (publishWorkUnit_ne_staged inv _ _) (fun hdone => ?_) hlanded
    rw [hdb]
    exact publishWorkUnit_commits hlaw inv (Process.Resolves.wellFormed hstage.2) hdone
  | reread prepared resolutions =>
    simp only [Landed, hat] at hlater
    obtain ⟨selected, hselected, hcommitted, hlanded⟩ := hlater
    simp only [Process.step, hat]
    exact answer_landed hselected hcommitted hlanded _
  | answered outcome route =>
    rw [step_answered env i hat]
    exact hlater

end Process

/-! ### Runs -/

theorem ReachableWhen.landed (hlaw : env.automerge.Lawful)
    (h : ReachableWhen env (fun w event => ¬ w.JoinsClosing event) w) :
    ∀ (i : ℕ) p, w.processes[i]? = some p → p.Landed env w := by
  induction h with
  | start => exact fun i p hp => by simp [World.start] at hp
  | @step w event hbefore hnot ih =>
    have hreach := hbefore.reachable
    intro i p' hp'
    rcases World.process_step hp' with
      hp | ⟨clock, p, rfl, hp, rfl⟩ | ⟨request, readings, -, -, rfl⟩
    · exact (ih i p' hp).runs hlaw (.single ⟨event, rfl⟩) hreach
    · exact (ih i p hp).advance hlaw hreach hp hnot
    · exact (request.arrive_early readings).landed

/-- **No acknowledged mutation is lost**, in runs in which no closing commit joins a unit that
another call is closing. When an immediate or a closing mutation is answered with success, the
versions of its own commit are published from then on. When a mutation in a unit is, its versions
are published wherever the unit is. -/
theorem acknowledged_versions_published (hlaw : env.automerge.Lawful)
    (h : ReachableWhen env (fun w event => ¬ w.JoinsClosing event) w) {i : ℕ} {p : Process}
    (hp : w.processes[i]? = some p) {result : MutationResult} {prepared : Prepared}
    {resolutions : List WorkUnitResolution}
    (hok : p.stage = .answered (.ok result) (.sent prepared resolutions)) (hruns : Runs env w w') :
    ((∀ selected, p.admitted.workUnit = some selected → selected.close = true) →
      ∀ v ∈ prepared.commit.newVersions, w'.db.PublishesVersion prepared.commit.key v) ∧
    ∀ selected, p.admitted.workUnit = some selected →
      w'.db.Committed selected.workUnit.identityJson →
        ∀ v ∈ prepared.commit.newVersions, w'.db.PublishesVersion prepared.commit.key v := by
  have hlanded := (h.landed hlaw i p hp).runs hlaw hruns h.reachable
  simp only [Process.Landed, hok] at hlanded
  cases hselected : p.admitted.workUnit with
  | none =>
    simp only [hselected] at hlanded
    exact ⟨fun _ => hlanded, fun selected h => by cases h⟩
  | some selected =>
    simp only [hselected] at hlanded
    refine ⟨fun hclose v hv => ?_, fun other hother hcommitted v hv => ?_⟩
    · exact (hlanded.2 v hv).publishes hlaw (hlanded.1 (hclose selected rfl))
    · cases hother
      exact (hlanded.2 v hv).publishes hlaw hcommitted

/-- The creation of the only note is published. -/
theorem only_note_stays_published : ∃ p result prepared resolutions,
    onlyNote.processes[0]? = some p ∧
    p.stage = .answered (.ok result) (.sent prepared resolutions) ∧
    prepared.commit.newVersions.map (·.version) = [drawnName 0 (.version 0)] ∧
    ∀ v ∈ prepared.commit.newVersions, onlyNote.db.PublishesVersion prepared.commit.key v := by
  have hnot : ∀ (w : World) event, (∀ p ∈ w.processes, p.admitted.workUnit = none) →
      ¬ w.JoinsClosing event := by
    rintro w event hnone ⟨i, clock, p, prepared, selected, -, hp, -, hselected, -⟩
    rw [hnone p (List.mem_of_getElem? hp)] at hselected
    cases hselected
  have hreach : ReachableWhen noteEnvironment (fun w event => ¬ w.JoinsClosing event) onlyNote :=
    .step (.advance 0 (clockAt 5)) (.step (.advance 0 (clockAt 5))
      (.step (.arrive (createNote .null none false) (readingsAt 5)) .start
        (hnot _ _ (by decide))) (hnot _ _ (by decide))) (hnot _ _ (by decide))
  obtain ⟨p, result, prepared, resolutions, hp, hok, hnames⟩ : ∃ p result prepared resolutions,
      onlyNote.processes[0]? = some p ∧
      p.stage = .answered (.ok result) (.sent prepared resolutions) ∧
      prepared.commit.newVersions.map (·.version) = [drawnName 0 (.version 0)] :=
    ⟨_, _, _, _, rfl, rfl, by decide⟩
  have himmediate : ∀ p ∈ onlyNote.processes, p.admitted.workUnit = none := by decide
  refine ⟨p, result, prepared, resolutions, hp, hok, hnames, ?_⟩
  exact (acknowledged_versions_published
    (show noteEnvironment.automerge.Lawful from noAutomerge_lawful) hreach hp hok .refl).1
    fun selected hselected => by
      rw [himmediate p (List.mem_of_getElem? hp)] at hselected
      cases hselected

/-! ### A lost creation -/

/-- A request to create a note, which closes the unit. -/
def closeCreating (name : String) : Request :=
  noteRequest (.create "note" (some name) .null) (some "unit") true []

/-- A unit updated the note `n`, which others updated too. The creations of `m` and `k` both read
before either closes the unit; `m` then closes it, and `k` joins and publishes it. -/
def joinedRace : World :=
  World.after noteEnvironment [
    .arrive (createNote .null none false) (readingsAt 5), .advance 0 (clockAt 5),
    .advance 0 (clockAt 5),
    .arrive (updateNote .null (some "unit") false [drawnName 0 (.version 0)]) (readingsAt 6),
    .advance 1 (clockAt 6), .advance 1 (clockAt 6),
    .arrive (updateNote (.bool true) none false [drawnName 0 (.version 0)]) (readingsAt 7),
    .advance 2 (clockAt 7), .advance 2 (clockAt 7),
    .arrive (closeCreating "m") (readingsAt 8), .advance 3 (clockAt 8),
    .arrive (closeCreating "k") (readingsAt 8), .advance 4 (clockAt 8),
    .advance 3 (clockAt 9),
    .advance 4 (clockAt 9), .advance 4 (clockAt 9), .advance 4 (clockAt 9)]

/-- **The creation of `k` is acknowledged**, and its version is not stored. -/
theorem joined_creation_is_lost :
    Reachable noteEnvironment joinedRace ∧
    ∃ p selected result prepared resolutions v, joinedRace.processes[4]? = some p ∧
      p.admitted.workUnit = some selected ∧ selected.close = true ∧
      p.stage = .answered (.ok result) (.sent prepared resolutions) ∧
      joinedRace.db.Committed selected.workUnit.identityJson ∧
      v ∈ prepared.commit.newVersions ∧
      ¬ ∃ r ∈ joinedRace.db.versions, r.key = prepared.commit.key ∧ r.version = v.version := by
  refine ⟨World.after_reachable _ _, _, _, _, _, _, _, rfl, rfl, rfl, rfl, ?_, List.mem_cons_self, ?_⟩
  · decide
  · decide

end Patchouli
