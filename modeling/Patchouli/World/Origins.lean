import Patchouli.Sqlite.Origins
import Patchouli.World.Moves

/-!
# Who wrote a version

Every version in the tables was written by a process, at its commit or with a resolution it sent.
A process draws the names of what it writes, and it writes once: where every draw has a name of its
own, a name that was written is not written again, by this process or by another.

## Main definitions

* `Environment.DrawsOnce` — every draw has a name of its own
* `Process.Wrote` — what a process has written so far
* `World.Written` — the names that were written

## Main results

* `World.step_rowFrom` — where the rows of the next world come from
* `Reachable.authored` — every version has an author
* `Runs.onlyIn` — what a unit staged, nobody else holds until the unit is published
-/

namespace Patchouli

open Db Relation

/-- Every draw of every process has a name of its own. -/
def Environment.DrawsOnce (env : Environment) : Prop :=
  ∀ i draw j draw', env.fresh i draw = env.fresh j draw' → i = j ∧ draw = draw'

theorem noteEnvironment_drawsOnce : noteEnvironment.DrawsOnce :=
  fun _ _ _ _ h => drawnName_injective h

variable {env : Environment} {w w' : World}

/-! ### Processes -/

namespace Process

variable {i : ℕ} {p : Process} {prepared : Patchouli.Prepared}
  {resolutions : List WorkUnitResolution} {key : EntityKey} {v : StoredEntityVersion}

/-- What a process has written so far, where the provider took it. -/
def Wrote (p : Process) (key : EntityKey) (v : StoredEntityVersion) : Prop :=
  match p.stage with
  | .publish prepared _ => key = prepared.commit.key ∧ v ∈ prepared.commit.newVersions
  | .reread prepared resolutions | .answered _ (.sent prepared resolutions) =>
    (key = prepared.commit.key ∧ v ∈ prepared.commit.newVersions) ∨
      ∃ r ∈ resolutions, key = r.entity.key ∧ v ∈ r.entity.newVersions
  | _ => False

/-- After the commit, the mutation was sent, or a recorded answer was found and nothing done. -/
theorem step_commit (env : Environment) (i : ℕ) (hat : p.stage = .commit prepared)
    (clock : Clock) (db : Db) :
    (∃ resolutions, (p.step env i clock db).1.stage = .publish prepared resolutions) ∨
      (∃ outcome, (p.step env i clock db).1.stage = .answered outcome (.sent prepared [])) ∨
      (∃ result, (p.step env i clock db).1.stage = .answered (.ok result) .replayed) ∧
        (p.step env i clock db).2 = db := by
  unfold step
  rw [hat]
  dsimp only
  split
  · unfold committedInWorkUnit
    dsimp only
    split
    · exact Or.inr (Or.inl ⟨_, rfl⟩)
    · split
      · exact Or.inr (Or.inl ⟨_, rfl⟩)
      · exact Or.inl ⟨_, rfl⟩
    · exact Or.inr (Or.inl ⟨_, rfl⟩)
  · rename_i record hnone hrecord
    unfold committedIdempotent
    dsimp only
    split
    · exact Or.inr (Or.inl ⟨_, rfl⟩)
    · exact Or.inr (Or.inl ⟨_, rfl⟩)
    · exact Or.inr (Or.inl ⟨_, rfl⟩)
    · rename_i result hreplayed
      refine Or.inr (Or.inr ⟨⟨result, rfl⟩, commitEntityIdempotent_db ?_⟩)
      rw [hreplayed]
      simp
    · exact Or.inr (Or.inl ⟨_, rfl⟩)
  · unfold committed
    dsimp only
    split <;> exact Or.inr (Or.inl ⟨_, rfl⟩)

/-- After the publication, the mutation was sent with its resolutions. -/
theorem step_publish (env : Environment) (i : ℕ) (hat : p.stage = .publish prepared resolutions)
    (clock : Clock) (db : Db) :
    (p.step env i clock db).1.stage = .reread prepared resolutions ∨
      (∃ outcome, (p.step env i clock db).1.stage =
        .answered outcome (.sent prepared resolutions)) ∨
      p.step env i clock db = (p, db) := by
  unfold step
  rw [hat]
  dsimp only
  split
  · unfold published
    dsimp only
    split
    · exact Or.inr (Or.inl ⟨_, rfl⟩)
    · exact Or.inl rfl
    · exact Or.inr (Or.inl ⟨_, rfl⟩)
  · exact Or.inr (Or.inr rfl)

theorem step_reread (env : Environment) (i : ℕ) (hat : p.stage = .reread prepared resolutions)
    (clock : Clock) (db : Db) :
    ∃ outcome, (p.step env i clock db).1.stage = .answered outcome (.sent prepared resolutions) := by
  unfold step
  rw [hat]
  exact ⟨_, rfl⟩

theorem step_answered (env : Environment) (i : ℕ) {outcome : Except BackendError MutationResult}
    {route : Route} (hat : p.stage = .answered outcome route) (clock : Clock) (db : Db) :
    p.step env i clock db = (p, db) := by
  unfold step
  rw [hat]

/-- What was written stays written. -/
theorem Wrote.step (h : p.Wrote key v) (clock : Clock) (db : Db) :
    (p.step env i clock db).1.Wrote key v := by
  cases hat : p.stage with
  | identify identity => simp [Wrote, hat] at h
  | read => simp [Wrote, hat] at h
  | commit prepared => simp [Wrote, hat] at h
  | publish prepared resolutions =>
    simp only [Wrote, hat] at h
    rcases step_publish env i hat clock db with hstage | ⟨outcome, hstage⟩ | heq
    · simp only [Wrote, hstage]
      exact Or.inl h
    · simp only [Wrote, hstage]
      exact Or.inl h
    · simp only [heq, Wrote, hat]
      exact h
  | reread prepared resolutions =>
    obtain ⟨outcome, hstage⟩ := step_reread env i hat clock db
    simp only [Wrote, hat] at h
    simp only [Wrote, hstage]
    exact h
  | answered outcome route =>
    rw [step_answered env i hat]
    exact h

/-- What a step stores, the process has written after it. -/
theorem Wrote.of_brings (h : (p.brings env).version key v) (clock : Clock) (db : Db) :
    (p.step env i clock db).1.Wrote key v ∨ (p.step env i clock db).2 = db := by
  cases hat : p.stage with
  | commit prepared =>
    simp only [brings, hat] at h
    rcases step_commit env i hat clock db with
      ⟨resolutions, hstage⟩ | ⟨outcome, hstage⟩ | ⟨-, heq⟩
    · exact Or.inl (by simpa only [Wrote, hstage] using h)
    · exact Or.inl (by simpa only [Wrote, hstage] using Or.inl h)
    · exact Or.inr heq
  | publish prepared resolutions =>
    simp only [brings, hat] at h
    rcases step_publish env i hat clock db with hstage | ⟨outcome, hstage⟩ | heq
    · exact Or.inl (by simpa only [Wrote, hstage] using Or.inr h)
    · exact Or.inl (by simpa only [Wrote, hstage] using Or.inr h)
    · exact Or.inr (by rw [heq])
  | identify identity => simp [brings, hat] at h
  | read => simp [brings, hat] at h
  | reread prepared resolutions => simp [brings, hat] at h
  | answered outcome route => simp [brings, hat] at h

/-! ### Names -/

theorem Prepared.named (hlaw : env.automerge.Lawful) (h : p.Prepared env i prepared) :
    ∀ v ∈ prepared.commit.newVersions, ∃ n, v.version = env.fresh i (.version n) := by
  obtain ⟨heads, hprepares⟩ := h.prepares hlaw
  exact hprepares.names

theorem Resolves.named (h : p.Resolves env i resolutions) :
    ∀ r ∈ resolutions, ∀ v ∈ r.entity.newVersions, ∃ n m, v.version = env.fresh i (.resolved n m) := by
  obtain ⟨conflicts, hresolutions⟩ := h
  obtain ⟨hlength, hall⟩ := resolvePublicationConflicts_resolved hresolutions
  intro r hr v hv
  obtain ⟨n, hn, rfl⟩ := List.getElem_of_mem hr
  have hlt : n < conflicts.length := hlength ▸ hn
  obtain ⟨r', hr', _, _, _, _, _, hresolved⟩ := hall n _ (List.getElem?_eq_getElem hlt)
  rw [List.getElem?_eq_getElem hn, Option.some.injEq] at hr'
  subst hr'
  exact ⟨n, hresolved.named v hv⟩

/-- What was written was drawn by its author. -/
theorem Wrote.drawn (hlaw : env.automerge.Lawful) (hsound : p.Sound env i) (h : p.Wrote key v) :
    ∃ draw, v.version = env.fresh i draw := by
  have hstage := hsound.stage
  unfold StageSound at hstage
  unfold Wrote at h
  split at h
  · rename_i hat
    rw [hat] at hstage
    obtain ⟨n, hn⟩ := hstage.1.named hlaw v h.2
    exact ⟨_, hn⟩
  · rename_i hat
    rw [hat] at hstage
    rcases h with ⟨-, hv⟩ | ⟨r, hr, -, hv⟩
    · obtain ⟨n, hn⟩ := hstage.1.named hlaw v hv
      exact ⟨_, hn⟩
    · obtain ⟨n, m, hn⟩ := hstage.2.named r hr v hv
      exact ⟨_, hn⟩
  · rename_i hat
    rw [hat] at hstage
    rcases h with ⟨-, hv⟩ | ⟨r, hr, -, hv⟩
    · obtain ⟨n, hn⟩ := hstage.1.named hlaw v hv
      exact ⟨_, hn⟩
    · rcases hstage.2 with rfl | hresolves
      · exact absurd hr List.not_mem_nil
      · obtain ⟨n, m, hn⟩ := hresolves.named r hr v hv
        exact ⟨_, hn⟩
  · exact h.elim

/-- What a step may store was drawn by its author. -/
theorem brings_drawn (hlaw : env.automerge.Lawful) (hsound : p.Sound env i)
    (h : (p.brings env).version key v) : ∃ draw, v.version = env.fresh i draw := by
  have hstage := hsound.stage
  unfold StageSound at hstage
  dsimp only [brings] at h
  split at h
  · rename_i hat
    rw [hat] at hstage
    obtain ⟨n, hn⟩ := hstage.named hlaw v h.2
    exact ⟨_, hn⟩
  · rename_i hat
    rw [hat] at hstage
    obtain ⟨r, hr, -, hv⟩ := h
    obtain ⟨n, m, hn⟩ := hstage.2.named r hr v hv
    exact ⟨_, hn⟩
  · exact h.elim

/-- **A process does not write a name twice**: what it is about to store is none of what it has
written. -/
theorem Wrote.not_brought (hlaw : env.automerge.Lawful) (hdraws : env.DrawsOnce)
    (hsound : p.Sound env i) (h : p.Wrote key v) {key' : EntityKey} {v' : StoredEntityVersion}
    (h' : (p.brings env).version key' v') : v'.version ≠ v.version := by
  have hstage := hsound.stage
  unfold StageSound at hstage
  intro heq
  cases hat : p.stage with
  | publish prepared resolutions =>
    simp only [Wrote, hat] at h
    simp only [brings, hat] at h'
    simp only [hat] at hstage
    obtain ⟨n, hn⟩ := hstage.1.named hlaw v h.2
    obtain ⟨r, hr, -, hv'⟩ := h'
    obtain ⟨m, k, hm⟩ := hstage.2.named r hr v' hv'
    rw [hn, hm] at heq
    cases (hdraws _ _ _ _ heq).2
  | commit prepared => simp [Wrote, hat] at h
  | identify identity => simp [Wrote, hat] at h
  | read => simp [Wrote, hat] at h
  | reread prepared resolutions => simp [brings, hat] at h'
  | answered outcome route => simp [brings, hat] at h'

end Process

/-! ### Worlds -/

/-- The name was given to a version. -/
def World.Written (w : World) (version : String) : Prop :=
  ∃ (i : ℕ) (p : Process) (key : EntityKey) (v : StoredEntityVersion),
    w.processes[i]? = some p ∧ p.Wrote key v ∧ v.version = version

/-- A process after an event. -/
theorem World.step_process (env : Environment) {i : ℕ} {p : Process} (hp : w.processes[i]? = some p)
    (event : Event) :
    ∃ p', (w.step env event).processes[i]? = some p' ∧
      (p' = p ∨ ∃ clock, event = .advance i clock ∧ p' = (p.step env i clock w.db).1) := by
  have hlt := (List.getElem?_eq_some_iff.mp hp).1
  cases event with
  | arrive request readings =>
    dsimp only [World.step]
    split
    · exact ⟨p, by rw [List.getElem?_append_left hlt, hp], Or.inl rfl⟩
    · exact ⟨p, hp, Or.inl rfl⟩
  | advance j clock =>
    cases hq : w.processes[j]? with
    | none =>
      simp only [World.step, hq]
      exact ⟨p, hp, Or.inl rfl⟩
    | some q =>
      simp only [World.step, hq]
      by_cases hji : j = i
      · subst hji
        rw [hp, Option.some.injEq] at hq
        subst hq
        exact ⟨_, List.getElem?_set_self hlt, Or.inr ⟨clock, rfl, rfl⟩⟩
      · exact ⟨p, by rw [List.getElem?_set_ne hji, hp], Or.inl rfl⟩
  | read => exact ⟨p, hp, Or.inl rfl⟩
  | retrieve => exact ⟨p, hp, Or.inl rfl⟩
  | readChanges => exact ⟨p, hp, Or.inl rfl⟩
  | crashInPrune => exact ⟨p, hp, Or.inl rfl⟩
  | sweep => exact ⟨p, hp, Or.inl rfl⟩

theorem World.Written.step {version : String} (h : w.Written version) (event : Event) :
    (w.step env event).Written version := by
  obtain ⟨i, p, key, v, hp, hwrote, hname⟩ := h
  obtain ⟨p', hp', rfl | ⟨clock, -, rfl⟩⟩ := World.step_process env hp event
  · exact ⟨i, p', key, v, hp', hwrote, hname⟩
  · exact ⟨i, _, key, v, hp', hwrote.step clock w.db, hname⟩

/-- **No event brings a name that was written.** -/
theorem World.Written.not_brought (hlaw : env.automerge.Lawful) (hdraws : env.DrawsOnce)
    (hsound : w.Sound env) {version : String} (h : w.Written version) (event : Event)
    {key : EntityKey} {v : StoredEntityVersion} (h' : (w.brings env event).version key v) :
    v.version ≠ version := by
  obtain ⟨i, p, key', v', hp, hwrote, rfl⟩ := h
  cases event with
  | advance j clock =>
    obtain ⟨q, hq, hbrings⟩ := h'
    intro heq
    obtain ⟨draw, hdraw⟩ := hwrote.drawn hlaw (hsound.processes i p hp)
    obtain ⟨draw', hdraw'⟩ := Process.brings_drawn hlaw (hsound.processes j q hq) hbrings
    obtain ⟨rfl, -⟩ := hdraws _ _ _ _ (hdraw'.symm.trans (heq.trans hdraw))
    rw [hp, Option.some.injEq] at hq
    subst hq
    exact hwrote.not_brought hlaw hdraws (hsound.processes _ p hp) hbrings heq
  | arrive => exact h'.elim
  | read => exact h'.elim
  | retrieve => exact h'.elim
  | readChanges => exact h'.elim
  | crashInPrune => exact h'.elim
  | sweep => exact h'.elim

/-- A row and its author. -/
def World.Author (w : World) (i : ℕ) (r : EntityVersionRow) : Prop :=
  ∃ p v, w.processes[i]? = some p ∧ p.Wrote r.key v ∧ r.Stores v

theorem World.Author.step (env : Environment) {i : ℕ} {r : EntityVersionRow} (h : w.Author i r)
    (event : Event) :
    (w.step env event).Author i r := by
  obtain ⟨p, v, hp, hwrote, hstores⟩ := h
  obtain ⟨p', hp', rfl | ⟨clock, -, rfl⟩⟩ := World.step_process env hp event
  · exact ⟨p', v, hp', hwrote, hstores⟩
  · exact ⟨_, v, hp', hwrote.step clock w.db, hstores⟩

/-- **Where the rows of the next world come from**: what was not there has been written by the
process that made the step. -/
theorem World.step_rowFrom (hlaw : env.automerge.Lawful) (hsound : w.Sound env) (event : Event) :
    ∀ r ∈ (w.step env event).db.versions,
      r ∈ w.db.versions ∨
      (∃ unit cursor r', r' ∈ w.db.versions ∧ r'.workUnitJson = some unit ∧
        (w.step env event).db.Committed unit ∧ r = publishedRow cursor r') ∨
      ∃ i clock, event = .advance i clock ∧ (w.step env event).Author i r := by
  intro r hr
  cases Effects.rowFrom hlaw hsound.inv (World.step_effects hlaw hsound event) r hr with
  | kept h => exact Or.inl h
  | published hold hunit hcommitted heq =>
    exact Or.inr (Or.inl ⟨_, _, _, hold, hunit, hcommitted, heq⟩)
  | @brought v h hstores =>
    cases event with
    | advance i clock =>
      obtain ⟨p, hp, hbrings⟩ := h
      have hlt := (List.getElem?_eq_some_iff.mp hp).1
      rcases Process.Wrote.of_brings (i := i) hbrings clock w.db with hwrote | heq
      · refine Or.inr (Or.inr ⟨i, clock, rfl, (p.step env i clock w.db).1, v, ?_, hwrote, hstores⟩)
        simp only [World.step, hp]
        exact List.getElem?_set_self hlt
      · refine Or.inl ?_
        simpa only [World.step, hp, heq] using hr
    | arrive => exact h.elim
    | read => exact h.elim
    | retrieve => exact h.elim
    | readChanges => exact h.elim
    | crashInPrune => exact h.elim
    | sweep => exact h.elim

/-- **Every version has an author.** -/
theorem Reachable.authored (hlaw : env.automerge.Lawful) (h : Reachable env w) :
    ∀ r ∈ w.db.versions, ∃ i, w.Author i r := by
  induction h with
  | start => exact fun r hr => absurd hr List.not_mem_nil
  | @step w event hbefore _ ih =>
    have hsound := Reachable.sound hlaw hbefore
    intro r hr
    rcases World.step_rowFrom hlaw hsound event r hr with
      hold | ⟨unit, cursor, r', hold, -, -, rfl⟩ | ⟨i, clock, -, hauthor⟩
    · obtain ⟨i, hi⟩ := ih r hold
      exact ⟨i, hi.step env event⟩
    · obtain ⟨i, hi⟩ := ih r' hold
      obtain ⟨p, v, hp, hwrote, hstores⟩ := hi.step env event
      exact ⟨i, p, v, hp, hwrote, ⟨hstores.version, hstores.state, hstores.value⟩⟩
    · exact ⟨i, hauthor⟩

theorem Reachable.written (hlaw : env.automerge.Lawful) (h : Reachable env w) {key : EntityKey}
    {version : String} (hversion : w.db.HasVersion key version) : w.Written version := by
  obtain ⟨r, hr, -, rfl⟩ := hversion
  obtain ⟨i, p, v, hp, hwrote, hstores⟩ := h.authored hlaw r hr
  exact ⟨i, p, r.key, v, hp, hwrote, hstores.version⟩

/-- **A unit keeps what it staged to itself** until it is published: nobody else ever holds a
version of that name. -/
theorem Runs.onlyIn (hlaw : env.automerge.Lawful) (hdraws : env.DrawsOnce) (h : Runs env w w')
    (hreach : Reachable env w) {unit : String} {key : EntityKey} {version : String}
    (hstaged : w.db.StagedBy unit key version) (hnot : ¬ w'.db.Committed unit) :
    w'.db.OnlyIn unit key version := by
  have hwritten : w.Written version := by
    obtain ⟨r, hr, -, hkey, hname⟩ := hstaged
    exact hreach.written hlaw ⟨r, hr, hkey, hname⟩
  have hkept : w'.Written version ∧ w'.db.OnlyIn unit key version := by
    induction h with
    | refl => exact ⟨hwritten, hstaged.onlyIn (hreach.sound hlaw).inv.staging⟩
    | @tail mid last hbefore hstep ih =>
      obtain ⟨event, rfl⟩ := hstep
      have hmid := (Runs.reachable hbefore hreach).sound hlaw
      have heffects := World.step_effects hlaw hmid event
      have hnot' : ¬ mid.db.Committed unit := fun hcommitted =>
        hnot (Effects.committed hlaw hmid.inv heffects hcommitted)
      obtain ⟨hwritten', honly⟩ := ih hnot'
      refine ⟨hwritten'.step event, Effects.onlyIn hlaw hmid.inv heffects honly hnot fun v hv => ?_⟩
      exact hwritten'.not_brought hlaw hdraws hmid event hv
  exact hkept.2

end Patchouli
