import Patchouli.Backend.Fallback
import Patchouli.Sqlite.Undisturbed
import Patchouli.World.Branches

/-!
# Mutations that name every head

An update or a deletion that names every head of its entity resolves whatever conflict the entity
has, if nobody writes between its read and its commit: the commit finds the heads that were read, and
leaves the version of the mutation as the only head. The one way it is refused over versions is in
between, where its candidate is prepared and a merge rule refuses one of the bases.

## Main definitions

* `Process.Alone` — nobody came in between
* `Process.LeavesSoleHead` — the entity has the version of the mutation, and no other head
* `Process.Settles` — the mutation is not refused over versions, and leaves one head

## Main results

* `naming_every_head_settles_iff`
-/

namespace Patchouli

open Db Relation

variable {env : Environment} {w w₂ : World} {i : ℕ} {p : Process}

namespace Process

/-! ### The read -/

theorem providerBackendError_conflicts (error : ProviderError) :
    ¬ (providerBackendError error).Conflicts := by
  unfold providerBackendError
  split <;> rintro ⟨⟩

/-- A read is not refused over versions. -/
theorem readReply_error {clock : Clock} {db : Db} {error : BackendError}
    (h : (p.readReply env i clock db).1 = .error error) : ¬ error.Conflicts := by
  have hvalue : ∀ {α : Type} {read : ConsistentRead α}, consistentValue read = .error error →
      ¬ error.Conflicts := by
    intro α read hread
    cases read with
    | read => cases hread
    | unavailable =>
      cases hread
      rintro ⟨⟩
  unfold readReply at h
  split at h
  · rcases Except.bind_eq_error.mp h with hfailed | ⟨outcome, -, hread⟩
    · obtain ⟨cause, -, rfl⟩ := Except.mapError_eq_error.mp hfailed
      exact providerBackendError_conflicts cause
    · cases outcome with
      | opened read => exact hvalue hread
      | closing | policyMismatch | committed | expired =>
        cases hread
        rintro ⟨⟩
  · rcases Except.bind_eq_error.mp h with hfailed | ⟨outcome, -, hread⟩
    · obtain ⟨cause, -, rfl⟩ := Except.mapError_eq_error.mp hfailed
      exact providerBackendError_conflicts cause
    · exact hvalue hread

theorem notFound_conflicts : ¬ notFound.Conflicts := by
  rintro ⟨⟩

/-- There is nothing to update or to delete. -/
theorem readBack_missing
    (hmutation : ∀ entityType id value, p.request.mutation ≠ .create entityType id value) :
    p.readBack env i (.ok none) = p.refuse notFound := by
  have hprepare : prepare env.automerge env.toText env.config (p.preparation env i) none =
      .error notFound := by
    unfold prepare
    split
    · exact absurd ‹_› (hmutation _ _ _)
    · rfl
    · rfl
  simp only [readBack, hprepare]

/-- A snapshot that was read is complete. -/
theorem HasRead.complete {db : Db} (inv : Inv env.automerge db) (hopen : OpenHeads db)
    {snapshot : EntitySnapshot} (h : p.HasRead env i db (some snapshot)) : snapshot.Complete := by
  have hheads := h.headVersions
  refine ⟨?_, hheads ▸ headsIn_nodup inv, fun head hhead => ?_⟩
  · cases hunit : p.admitted.workUnit with
    | none =>
      simp only [HasRead, hunit, readEntitySnapshot] at h
      split at h
      · cases h
      · rw [Option.some.inj h]
        assumption
    | some selected =>
      have hread := h
      simp only [HasRead, hunit, readWorkUnitSnapshot] at hread
      obtain ⟨hread, -⟩ := hread
      split at hread
      · cases hread
      · rw [Option.some.inj hread]
        assumption
  · rw [hheads] at hhead
    cases hunit : p.admitted.workUnit with
    | none =>
      simp only [headsIn, hunit] at hhead
      obtain ⟨r, hr, hkey, hname, hnone⟩ :=
        inv.published.isPublished (mem_publishedHeads.mp hhead)
      obtain ⟨-, cursor, hcursor, -⟩ := inv.published.published r hr hnone
      simp only [HasRead, hunit, readEntitySnapshot] at h
      split at h
      · cases h
      · rw [Option.some.inj h]
        exact ⟨_, mem_snapshotVersions.mpr ⟨r, hr, by simp [hkey, hcursor], rfl⟩, hname⟩
    | some selected =>
      simp only [headsIn, hunit] at hhead
      simp only [HasRead, hunit] at h
      obtain ⟨hread, hcaptured, u, hu, hid, hstate⟩ := h
      obtain ⟨-, hversions⟩ := readWorkUnitSnapshot_eq_some hread.symm
      rw [← hid] at hhead hcaptured hversions
      rcases hopen.seen inv hu hstate hhead with ⟨r, hr, hown, hkey, hname⟩ |
        ⟨r, hr, hkey, hname, hby⟩
      · exact ⟨_, (hversions _).mpr ⟨r, hr, ⟨hkey, Or.inr hown⟩, rfl⟩, hname⟩
      · have hbase := (inv.baseRow_iff hu hcaptured).mpr ⟨⟨r, hr, hkey, rfl, hby⟩, rfl⟩
        exact ⟨_, (hversions _).mpr ⟨r, hr, ⟨hkey, Or.inl ⟨_, hbase, rfl, rfl, rfl⟩⟩, rfl⟩, hname⟩

/-! ### The commit -/

variable (env i p) in
/-- Nobody wrote the entity of a mutation since the tables had its heads, or closed its unit; and
if the mutation closes its unit, nobody published what the unit has staged. -/
structure Alone (heads : List String) (db : Db) : Prop where
  heads : p.headsIn env i db = heads
  unit : ∀ selected, p.admitted.workUnit = some selected →
    db.NotClosing selected.workUnit.identityJson ∧
      (selected.close = true → db.Undisturbed selected.workUnit.identityJson)

variable (env i p) in
/-- The version of a mutation is the only head of its entity, and it is what was asked for. -/
structure LeavesSoleHead (db : Db) : Prop where
  heads : p.headsIn env i db = [env.fresh i (.version 0)]
  published : ∀ selected, p.admitted.workUnit = some selected → selected.close = true →
    db.publishedHeads (p.key env i) = [env.fresh i (.version 0)]
  stored : ∃ r ∈ db.versions, r.key = p.key env i ∧ r.version = env.fresh i (.version 0) ∧
    (p.preparation env i).Asks (db.storedVersion r)

theorem mapWorkUnitOutcome_error {outcome : WorkUnitCommitOutcome} {error : BackendError}
    (hconflict : ∀ heads, outcome ≠ .conflict heads)
    (hpublication : ∀ conflicts, outcome ≠ .publicationConflict conflicts)
    (h : mapWorkUnitOutcome outcome = .error error) : ¬ error.Conflicts := by
  cases outcome with
  | staged | published => cases h
  | conflict heads => exact absurd rfl (hconflict heads)
  | publicationConflict conflicts => exact absurd rfl (hpublication conflicts)
  | policyMismatch | closing | committed | expired | replayed | idempotencyConflict =>
    cases h
    rintro ⟨⟩

/-- A commit that is held leaves its version as the only head. -/
theorem LeavesSoleHead.of_holds {prepared : Patchouli.Prepared} {db : Db}
    (hkey : prepared.commit.key = p.key env i)
    (hheads : prepared.commit.headVersions = [env.fresh i (.version 0)])
    (hnew : ∃ version ∈ prepared.commit.newVersions, version.version = env.fresh i (.version 0) ∧
      (p.preparation env i).Asks version)
    (hin : p.headsIn env i db = Table.sorted prepared.commit.headVersions)
    (hpublished : ∀ selected, p.admitted.workUnit = some selected → selected.close = true →
      db.publishedHeads prepared.commit.key = Table.sorted prepared.commit.headVersions)
    (hholds : ∀ v ∈ prepared.commit.newVersions, db.Holds prepared.commit.key v) :
    p.LeavesSoleHead env i db := by
  rw [hheads] at hin hpublished
  obtain ⟨version, hversion, hname, hasks⟩ := hnew
  obtain ⟨r, hr, hrkey, hrname, hstate, hvalue⟩ := hholds version hversion
  refine ⟨hin, hkey ▸ hpublished, r, hr, hrkey.trans hkey, hrname.trans hname, ?_⟩
  unfold Preparation.Asks at hasks ⊢
  simpa only [storedVersion, hstate, hvalue] using hasks

variable (env i) in
/-- A mutation is not refused over versions, and is accepted only with its version the sole head of
its entity. Replays and what is not answered yet are left open. -/
def Settled (p : Process) (db : Db) : Prop :=
  match p.stage with
  | .answered (.error error) _ => ¬ error.Conflicts
  | .answered (.ok _) (.sent _ _) => p.LeavesSoleHead env i db
  | _ => True

theorem answer_settled {prepared : Patchouli.Prepared}
    {outcome : Except BackendError MutationResult} {db : Db}
    (herror : ∀ error, outcome = .error error → ¬ error.Conflicts)
    (hok : ∀ result, outcome = .ok result → p.LeavesSoleHead env i db) :
    (p.answer prepared [] outcome).Settled env i db := by
  cases outcome with
  | error error => exact herror error rfl
  | ok result => exact ⟨(hok result rfl).heads, (hok result rfl).published, (hok result rfl).stored⟩

section Commit

variable {prepared : Patchouli.Prepared} (hheads : prepared.commit.headVersions =
    [env.fresh i (.version 0)]) (hnew : ∃ version ∈ prepared.commit.newVersions,
    version.version = env.fresh i (.version 0) ∧ (p.preparation env i).Asks version)
  {db : Db} {clock : Clock} (hlaw : env.automerge.Lawful) (inv : Inv env.automerge db)
  (hformed : prepared.commit.WellFormed env.automerge) (hkey : prepared.commit.key = p.key env i)
  (halone : p.Alone env i (Table.sorted prepared.commit.expectedHeads) db)

include hheads hnew hlaw inv hformed hkey halone

theorem commitInWorkUnit_settled {selected : SelectedWorkUnit}
    (hunit : p.admitted.workUnit = some selected)
    (hscope : selected.workUnit.scopeJson = prepared.commit.key.scopeJson)
    (hcaptured : db.Captured selected.workUnit.identityJson prepared.commit.key) :
    (p.committedInWorkUnit env i prepared
      (commitEntityInWorkUnit db clock (p.workUnitCommit selected prepared)).outcome).Settled env i
      (commitEntityInWorkUnit db clock (p.workUnitCommit selected prepared)).db := by
  have hbefore := halone.heads
  simp only [headsIn, hunit, ← hkey] at hbefore
  obtain ⟨hnot, hundisturbed⟩ := halone.unit selected hunit
  have hcases := commitEntityInWorkUnit_cases inv clock (p.workUnitCommit selected prepared)
  cases hreply : (commitEntityInWorkUnit db clock (p.workUnitCommit selected prepared)).outcome with
  | error cause => exact providerBackendError_conflicts cause
  | ok outcome =>
    rw [hreply] at hcases
    have hpublication : ∀ conflicts, outcome ≠ .publicationConflict conflicts := by
      rintro conflicts rfl
      exact hcases.not_publicationConflict hlaw inv hformed hscope hcaptured hnot hundisturbed
    have hconflict : ∀ heads, outcome ≠ .conflict heads := by
      rintro heads rfl
      exact commitEntityInWorkUnit_conflict inv hcaptured hnot hreply hbefore
    have hanswer : p.committedInWorkUnit env i prepared (.ok outcome) =
        p.answer prepared [] ((mapWorkUnitOutcome outcome).map fun _ => prepared.result) := by
      cases outcome with
      | publicationConflict conflicts => exact absurd rfl (hpublication conflicts)
      | _ => rfl
    rw [hanswer]
    refine answer_settled (fun error herror => ?_) fun result hok => ?_
    · obtain ⟨cause, hcause, hsame⟩ : ∃ cause, mapWorkUnitOutcome outcome = .error cause ∧
          cause = error := by
        cases hmap : mapWorkUnitOutcome outcome <;> simp_all [Except.map]
      exact hsame ▸ mapWorkUnitOutcome_error hconflict hpublication hcause
    · have haccepted : outcome = .staged ∨ outcome = .published := by
        cases outcome <;> simp_all [mapWorkUnitOutcome, Except.map]
      obtain ⟨hin, hpublished, hholds⟩ :=
        hcases.stores hlaw inv hformed hscope hcaptured hnot haccepted
      refine .of_holds hkey hheads hnew ?_ (fun selected' hselected' hclose => ?_) hholds
      · simp only [headsIn, hunit, ← hkey]
        exact hin
      · rw [hunit, Option.some.injEq] at hselected'
        subst hselected'
        exact hpublished hclose

theorem commitIdempotent_settled (hunit : p.admitted.workUnit = none)
    (record : IdempotencyRecord) (now : ℕ) :
    (p.committedIdempotent prepared
      (commitEntityIdempotent db clock prepared.commit record now).outcome).Settled env i
      (commitEntityIdempotent db clock prepared.commit record now).db := by
  have hbefore := halone.heads
  simp only [headsIn, hunit, ← hkey] at hbefore
  cases hreply : (commitEntityIdempotent db clock prepared.commit record now).outcome with
  | error cause => exact providerBackendError_conflicts cause
  | ok outcome =>
    cases outcome with
    | committed =>
      obtain ⟨hin, hholds⟩ := commitEntityIdempotent_stores hlaw inv hformed hreply
      refine answer_settled (p := p) (fun _ (h : Except.ok prepared.result = _) => by cases h)
        fun _ _ => .of_holds hkey hheads hnew ?_ (fun selected hselected => ?_) hholds
      · simp only [headsIn, hunit, ← hkey]
        exact hin
      · simp [hunit] at hselected
    | entityConflict heads => exact absurd hbefore (commitEntityIdempotent_conflict hreply)
    | replayed => trivial
    | idempotencyConflict => rintro ⟨⟩

theorem commit_settled (hunit : p.admitted.workUnit = none) :
    (p.committed prepared (commitEntity db clock prepared.commit).outcome).Settled env i
      (commitEntity db clock prepared.commit).db := by
  have hbefore := halone.heads
  simp only [headsIn, hunit, ← hkey] at hbefore
  cases hreply : (commitEntity db clock prepared.commit).outcome with
  | error cause => exact providerBackendError_conflicts cause
  | ok outcome =>
    cases outcome with
    | committed =>
      obtain ⟨hin, hholds⟩ := commitEntity_stores hlaw inv hformed hreply
      refine answer_settled (p := p) (fun _ (h : Except.ok prepared.result = _) => by cases h)
        fun _ _ => .of_holds hkey hheads hnew ?_ (fun selected hselected => ?_) hholds
      · simp only [headsIn, hunit, ← hkey]
        exact hin
      · simp [hunit] at hselected
    | conflict heads => exact absurd hbefore (commitEntity_conflict inv hreply)

end Commit

/-- **The commit of a mutation that nobody came before** settles it. -/
theorem step_settled (hlaw : env.automerge.Lawful) (hreach : Reachable env w)
    (hp : w.processes[i]? = some p) {prepared : Patchouli.Prepared}
    (hat : p.stage = .commit prepared)
    (halone : p.Alone env i (Table.sorted prepared.commit.expectedHeads) w.db)
    (hheads : prepared.commit.headVersions = [env.fresh i (.version 0)])
    (hnew : ∃ version ∈ prepared.commit.newVersions, version.version = env.fresh i (.version 0) ∧
      (p.preparation env i).Asks version) (clock : Clock) :
    (p.step env i clock w.db).1.Settled env i (p.step env i clock w.db).2 := by
  have hsound := hreach.sound hlaw
  have inv := hsound.inv
  have hps := hsound.processes i p hp
  have hread : p.FromRead env (fun _ _ => True) w i prepared := by
    have hinformed := hreach.informed hlaw i p hp
    simpa only [Informed, hat] using hinformed
  obtain ⟨_, hprepares⟩ := Prepared.prepares (p := p) (i := i) hlaw (by
    have hstage := hps.stage
    simpa only [StageSound, hat] using hstage)
  obtain ⟨hkey, hscope⟩ := Prepares.scope_eq hprepares
  have hformed := hprepares.formed
  have hlive : ∀ outcome route, p.stage ≠ .answered outcome route := by simp [hat]
  unfold step
  rw [hat]
  dsimp only
  split
  · rename_i selected hunit
    exact commitInWorkUnit_settled hheads hnew hlaw inv hformed hkey halone hunit
      ((hps.workUnit hlive hunit).1.trans hscope.symm) (hkey ▸ hread.captured hlaw hunit)
  · rename_i record hunit _
    exact commitIdempotent_settled hheads hnew hlaw inv hformed hkey halone hunit record _
  · rename_i hunit _
    exact commit_settled hheads hnew hlaw inv hformed hkey halone hunit

/-! ### The read and the commit -/

variable (env w i p) in
/-- From its read on, a mutation is never refused over versions, whatever happens around it as long
as nobody comes before its commit; and if it is accepted, its version is the sole head. -/
def Settles (clock : Clock) : Prop :=
  (p.step env i clock w.db).1.Settled env i (p.step env i clock w.db).2 ∧
    ∀ w₂ clock', Runs env (w.step env (.advance i clock)) w₂ →
      w₂.processes[i]? = some (p.step env i clock w.db).1 →
      p.Alone env i (p.headsIn env i (p.step env i clock w.db).2) w₂.db →
      ((p.step env i clock w.db).1.step env i clock' w₂.db).1.Settled env i
        ((p.step env i clock w.db).1.step env i clock' w₂.db).2

end Process

/-- The note was created, and an update that names its head is about to read it. -/
def namingNote : World :=
  World.after noteEnvironment [
    .arrive (createNote .null none false) (readingsAt 5), .advance 0 (clockAt 5),
    .advance 0 (clockAt 5),
    .arrive (updateNote (.bool true) none false [drawnName 0 (.version 0)]) (readingsAt 6)]

/-- A request under a plan that merges the contents of notes, and rejects what it cannot merge. -/
def mergingRequest (mutation : Mutation) (baseVersions : List String) : Request :=
  { mutation
    selection :=
      { noteSelection none false baseVersions with
        conflict :=
          { strategy := .merge, baseVersionsField := "base_versions"
            baseVersions := some (.array (baseVersions.map .string))
            merge := [⟨"/content", []⟩], otherwise := .reject } }
    deadlineUnixMs := none }

def contents (text : String) : Json.Value := .object [("content", .string text)]

/-- The note was created and deleted, and an update that names its tombstone is about to read it. -/
def updatingTombstone : World :=
  World.after noteEnvironment [
    .arrive (mergingRequest (.create "note" (some "n") (contents "first")) []) (readingsAt 5),
    .advance 0 (clockAt 5), .advance 0 (clockAt 5),
    .arrive (mergingRequest (.delete ⟨"note", "n"⟩) [drawnName 0 (.version 0)]) (readingsAt 6),
    .advance 1 (clockAt 6), .advance 1 (clockAt 6),
    .arrive (mergingRequest (.update ⟨"note", "n"⟩ (contents "second"))
      [drawnName 1 (.version 0)]) (readingsAt 7)]

end Patchouli
