import Patchouli.Sqlite.Atomic

/-!
# Provider operations

The provider as one state machine: an operation is a call with its arguments, and nothing is
promised about them. What holds of every state it can reach is proved statement by statement: a
property that every write statement keeps is kept by every operation, whatever the order of the
statements in it, because a transaction that fails leaves the state it found.

The other half is how an operation can fail. `KeptByStatements` carries a property of errors along;
it must hold of every error but the violation of the primary key of `patchouli_idempotency`, so that
it can say that this one never occurs.

## Main definitions

* `Operation`, `Operation.call` — the calls of the provider
* `Operation.Carries` — what the versions of an operation satisfy
* `KeptByStatements` — a property of states and one of errors, kept by every write statement
* `Operation.Reaches` — the states a provider can be in

## Main results

* `Operation.keeps` — an operation keeps what its statements keep
* `Operation.Reaches.kept` — and so does every run
-/

namespace Patchouli

open Db

/-! ### Operations -/

/-- The calls of the provider, by the type of what they answer. -/
inductive Operation : Type → Type
  | readEntity (key : EntityKey) (consistency : ReadConsistency) :
      Operation (ConsistentRead (Option EntitySnapshot))
  | readChanges (query : ChangeQuery) : Operation ChangePage
  | retrieveEntities (query : RetrieveQuery) (consistency : ReadConsistency) :
      Operation (ConsistentRead RetrievedPage)
  | readIdempotency (scope : String) (consistency : ReadConsistency) (identity : String)
      (request : Mutation) (now : ℕ) : Operation IdempotencyReadOutcome
  | commitEntity (entity : EntityCommit) : Operation EntityCommitOutcome
  | commitEntityIdempotent (entity : EntityCommit) (idempotency : IdempotencyRecord) (now : ℕ) :
      Operation IdempotentCommitOutcome
  | readEntityInWorkUnit (workUnit : WorkUnit) (key : EntityKey) (consistency : ReadConsistency) :
      Operation WorkUnitReadOutcome
  | readIdempotencyInWorkUnit (workUnit : WorkUnit) (consistency : ReadConsistency)
      (identity : String) (request : Mutation) (now : ℕ) (allowReplay : Bool) :
      Operation IdempotencyReadOutcome
  | retrieveEntitiesInWorkUnit (workUnit : WorkUnit) (query : RetrieveQuery)
      (consistency : ReadConsistency) : Operation WorkUnitRetrieveOutcome
  | commitEntityInWorkUnit (entity : WorkUnitCommit) : Operation WorkUnitCommitOutcome
  | publishWorkUnit (publish : WorkUnitPublish) : Operation WorkUnitCommitOutcome

namespace Operation

/-- Make the call. -/
def call (search : Search) (db : Db) (clock : Clock) : {α : Type} → Operation α → Reply α
  | _, readEntity key consistency => Patchouli.readEntity db clock key consistency
  | _, readChanges query => Patchouli.readChanges db query
  | _, retrieveEntities query consistency =>
      Patchouli.retrieveEntities search db clock query consistency
  | _, readIdempotency scope consistency identity request now =>
      Patchouli.readIdempotency db clock scope consistency identity request now
  | _, commitEntity entity => Patchouli.commitEntity db clock entity
  | _, commitEntityIdempotent entity idempotency now =>
      Patchouli.commitEntityIdempotent db clock entity idempotency now
  | _, readEntityInWorkUnit workUnit key consistency =>
      Patchouli.readEntityInWorkUnit db clock workUnit key consistency
  | _, readIdempotencyInWorkUnit workUnit consistency identity request now allowReplay =>
      Patchouli.readIdempotencyInWorkUnit db clock workUnit consistency identity request now
        allowReplay
  | _, retrieveEntitiesInWorkUnit workUnit query consistency =>
      Patchouli.retrieveEntitiesInWorkUnit search db clock workUnit query consistency
  | _, commitEntityInWorkUnit entity => Patchouli.commitEntityInWorkUnit db clock entity
  | _, publishWorkUnit publish => Patchouli.publishWorkUnit db clock publish

/-- What is asked of the versions an operation carries. -/
def Carries (allowed : EntityKey → StoredEntityVersion → Prop) : {α : Type} → Operation α → Prop
  | _, commitEntity entity => ∀ v ∈ entity.newVersions, allowed entity.key v
  | _, commitEntityIdempotent entity _ _ => ∀ v ∈ entity.newVersions, allowed entity.key v
  | _, commitEntityInWorkUnit staged =>
      ∀ v ∈ staged.entity.newVersions, allowed staged.entity.key v
  | _, publishWorkUnit publish => ∀ resolution ∈ publish.resolutions,
      ∀ v ∈ resolution.entity.newVersions, allowed resolution.entity.key v
  | _, _ => True

end Operation

/-! ### Statements -/

/-- SQLite refuses a second record under one identity. -/
def duplicateIdempotency : ProviderError :=
  databaseError "UNIQUE constraint failed: patchouli_idempotency"

/-- The violation of that primary key, as a call reports it. -/
def ProviderError.IsDuplicate (error : ProviderError) : Prop :=
  error.message = duplicateIdempotency.message ∨
    error.message = (publicationFailed duplicateIdempotency).message

instance (error : ProviderError) : Decidable error.IsDuplicate :=
  inferInstanceAs (Decidable (error.message = duplicateIdempotency.message ∨
    error.message = (publicationFailed duplicateIdempotency).message))

/-- **Kept by every write statement that publishes nothing**: `I` of states, where versions that are
inserted are `allowed`, and `E` of errors. -/
structure KeptQuietly (allowed : EntityKey → StoredEntityVersion → Prop) (E : ProviderError → Prop)
    (I : Db → Prop) : Prop where
  ordinary : ∀ error : ProviderError, ¬ error.IsDuplicate → E error
  insertEntityVersions : ∀ db, I db → ∀ key versions unit recordedAt,
    (∀ v ∈ versions, allowed key v) →
      (db.insertEntityVersions key versions unit recordedAt).Meets E I
  replaceWorkUnitHeads : ∀ db, I db → ∀ unit key heads,
    (db.replaceWorkUnitHeads unit key heads).Meets E I
  advanceReadSessions : ∀ db, I db → ∀ scope consistency frontier,
    I (db.advanceReadSessions scope consistency frontier)
  openWorkUnit : ∀ db, I db → ∀ workUnit now expires,
    db.workUnit? workUnit.identityJson = none → I (db.openWorkUnit workUnit now expires)
  captureWorkUnitEntity : ∀ db, I db → ∀ unit key, (db.captureWorkUnitEntity unit key).Meets E I
  recordStagedMutation : ∀ db, I db → ∀ staged, I (db.recordStagedMutation staged)
  markClosing : ∀ db, I db → ∀ identity, I (db.markClosing identity)
  expireWorkUnit : ∀ db, I db → ∀ identity now, (db.expireWorkUnit identity now).Meets E I
  deleteOverdueIdempotency : ∀ db, I db → ∀ now, (db.deleteOverdueIdempotency now).Meets E I
  insertWorkUnitIdempotency : ∀ db, I db → ∀ unit record,
    db.idempotency? record.identityJson = none → db.unitIdempotency? record.identityJson = none →
      (db.insertWorkUnitIdempotency unit record).Meets E I
  recordRetention : ∀ db, I db → ∀ retainedAfter, I (db.recordRetention retainedAfter)
  deleteOverdueChanges : ∀ db, I db → ∀ retainedAfter, I (db.deleteOverdueChanges retainedAfter)

/-- **Kept by every write statement.** -/
structure KeptByStatements (allowed : EntityKey → StoredEntityVersion → Prop)
    (E : ProviderError → Prop) (I : Db → Prop) : Prop extends KeptQuietly allowed E I where
  publication : ∀ error, E error → E (publicationFailed error)
  replacePublishedHeads : ∀ db, I db → ∀ key heads, (db.replacePublishedHeads key heads).Meets E I
  insertChange : ∀ db, I db → ∀ key kind heads causalToken eventMeta recordedAt,
    (db.insertChange key kind heads causalToken eventMeta recordedAt).Meets E fun r => I r.2
  advanceWriteSessions : ∀ db, I db → ∀ scope keys cursor,
    I (db.advanceWriteSessions scope keys cursor)
  publishEntityVersions : ∀ db, I db → ∀ key versions cursor,
    I (db.publishEntityVersions key versions cursor)
  publishWorkUnitVersions : ∀ db, I db → ∀ unit key cursor,
    I (db.publishWorkUnitVersions unit key cursor)
  markCommitted : ∀ db, I db → ∀ identity recordedAt, I (db.markCommitted identity recordedAt)
  publishUnitIdempotency : ∀ db, I db → ∀ unit recordedAt,
    (db.publishUnitIdempotency unit recordedAt).Meets E I
  insertIdempotency : ∀ db, I db → ∀ record, db.idempotency? record.identityJson = none →
    db.unitIdempotency? record.identityJson = none → (db.insertIdempotency record).Meets E I

/-- A reply with such an error and such a state. -/
def Reply.Keeps {α : Type} (E : ProviderError → Prop) (I : Db → Prop) (reply : Reply α) : Prop :=
  (∀ error, reply.outcome = .error error → E error) ∧ I reply.db

/-! ### Transactions -/

section Transactions

variable {α : Type} {E : ProviderError → Prop} {I : Db → Prop} {db : Db}

/-- A transaction body ends in such a state, if it commits. -/
abbrev Ends (E : ProviderError → Prop) (I : Db → Prop)
    (body : Except ProviderError (Finished α)) : Prop :=
  body.Meets E fun finished => ∀ new ∈ finished.committed, I new

theorem Ends.rollback (value : α) : Ends E I (rollback value) :=
  fun _ h => nomatch h

theorem Ends.commit (hI : I db) (value : α) : Ends E I (commit db value) := by
  rintro new ⟨⟩
  exact hI

theorem Ends.transaction (hI : I db) {body : Except ProviderError (Finished α)}
    (h : Ends E I body) : (transaction db body).Keeps E I := by
  unfold Patchouli.transaction
  split
  · rename_i value new
    exact ⟨fun _ he => (nomatch he), h new rfl⟩
  · exact ⟨fun _ he => (nomatch he), hI⟩
  · rename_i error
    refine ⟨fun _ he => ?_, hI⟩
    cases he
    exact h

end Transactions

namespace KeptQuietly

variable {allowed : EntityKey → StoredEntityVersion → Prop} {E : ProviderError → Prop}
  {I : Db → Prop} {db : Db}

theorem commitBeforeDeadline (h : KeptQuietly allowed E I) {α : Type} (hI : I db) (now : ℕ)
    (deadline : Option ℕ) (value : α) :
    Ends E I (commitBeforeDeadline now deadline db value) := by
  unfold Patchouli.commitBeforeDeadline
  split
  · split
    · exact h.ordinary _ (by decide)
    · exact Ends.commit hI value
  · exact Ends.commit hI value

theorem sqliteTime (h : KeptQuietly allowed E I) (value : ℕ) {message : String}
    (hmessage : ¬ (ProviderError.new message).IsDuplicate) :
    (sqliteTime value message).Meets E fun _ => True := by
  unfold Patchouli.sqliteTime
  split
  · trivial
  · exact h.ordinary _ hmessage

theorem bindUnsigned (h : KeptQuietly allowed E I) (value : ℕ) :
    (bindUnsigned value).Meets E fun _ => True := by
  unfold Patchouli.bindUnsigned
  split
  · trivial
  · exact h.ordinary _ (by decide)

theorem expireOpenWorkUnits (h : KeptQuietly allowed E I) (hI : I db) (now : ℕ) :
    (db.expireOpenWorkUnits now).Meets E I :=
  (h.bindUnsigned now).bind fun _ _ =>
    Except.Meets.foldlM hI fun db hI _ _ => h.expireWorkUnit db hI _ _

theorem sweepThen (h : KeptQuietly allowed E I) (hI : I db) {α : Type} {clock : Clock}
    {call : Db → Reply α} (hcall : ∀ db, I db → (call db).Keeps E I) :
    (sweepThen db clock call).Keeps E I := by
  have hsweep : (db.sweepExpiredWorkUnits clock.sweep).Keeps E I :=
    Ends.transaction hI ((h.expireOpenWorkUnits hI clock.sweep).bind fun db hI => Ends.commit hI ())
  unfold Patchouli.sweepThen
  split
  · rename_i swept heq
    exact hcall swept (by rw [heq] at hsweep; exact hsweep.2)
  · rename_i error swept heq
    rw [heq] at hsweep
    refine ⟨fun _ he => ?_, hsweep.2⟩
    cases he
    exact hsweep.1 error rfl

theorem consistencyObservation (h : KeptQuietly allowed E I) (now : ℕ) (scope : String)
    (consistency : ReadConsistency) (frontier : ℕ) :
    (consistencyObservation db now scope consistency frontier).Meets E fun _ => True := by
  unfold Patchouli.consistencyObservation
  split
  · exact h.ordinary _ (by decide)
  · split
    · trivial
    · split
      · trivial
      · split <;> trivial

/-! ### Reads -/

theorem readEntity (h : KeptQuietly allowed E I) (hI : I db) (clock : Clock) (key : EntityKey)
    (consistency : ReadConsistency) : (readEntity db clock key consistency).Keeps E I :=
  h.sweepThen hI fun db hI => Ends.transaction hI <|
    (h.consistencyObservation _ _ _ _).bind fun observed _ => by
      cases observed with
      | none => exact Ends.rollback _
      | some observation =>
        exact h.commitBeforeDeadline (h.advanceReadSessions _ hI _ _ _) _ _ _

theorem readChanges (h : KeptQuietly allowed E I) (hI : I db) (query : ChangeQuery) :
    (readChanges db query).Keeps E I := by
  have hbind := h.bindUnsigned query.retainedAfterUnixMs
  unfold Patchouli.readChanges
  split
  · rename_i error heq
    refine ⟨fun _ he => ?_, hI⟩
    cases he
    exact hbind.of_error heq
  · exact ⟨fun _ he => (nomatch he), h.deleteOverdueChanges _ (h.recordRetention _ hI _) _⟩

theorem retrieveEntities (h : KeptQuietly allowed E I) (hI : I db) (search : Search) (clock : Clock)
    (query : RetrieveQuery) (consistency : ReadConsistency) :
    (retrieveEntities search db clock query consistency).Keeps E I :=
  Ends.transaction hI <| (h.consistencyObservation _ _ _ _).bind fun observed _ => by
    cases observed with
    | none => exact Ends.rollback _
    | some observation =>
      exact h.commitBeforeDeadline (h.advanceReadSessions _ hI _ _ _) _ _ _

theorem readIdempotencyRecord (h : KeptQuietly allowed E I) (hI : I db) (identity : String)
    (request : Mutation) (now : ℕ) :
    (readIdempotencyRecord db identity request now).Meets E fun r => I r.2 :=
  (h.deleteOverdueIdempotency db hI now).bind fun db hI => by
    split <;> exact hI

theorem readIdempotency (h : KeptQuietly allowed E I) (hI : I db) (clock : Clock) (scope : String)
    (consistency : ReadConsistency) (identity : String) (request : Mutation) (now : ℕ) :
    (readIdempotency db clock scope consistency identity request now).Keeps E I :=
  Ends.transaction hI <| (h.consistencyObservation _ _ _ _).bind fun observed _ => by
    cases observed with
    | none => exact Ends.rollback _
    | some observation =>
      exact (h.readIdempotencyRecord hI identity request now).bind fun r hr =>
        h.commitBeforeDeadline (h.advanceReadSessions _ hr _ _ _) _ _ _

/-! ### Work units -/

theorem ensureWorkUnit (h : KeptQuietly allowed E I) (hI : I db) (workUnit : WorkUnit) :
    (db.ensureWorkUnit workUnit).Meets E fun r => I r.2 := by
  unfold Db.ensureWorkUnit
  split
  · rename_i hnone
    refine (h.sqliteTime _ (by decide)).bind fun now _ =>
      (h.sqliteTime _ (by decide)).bind fun expires _ => ?_
    split
    · exact h.ordinary _ (by decide)
    · exact h.openWorkUnit db hI workUnit now expires hnone
  · have hexpire : ((db.expireWorkUnit workUnit.identityJson workUnit.nowUnixMs).bind fun db =>
        pure (StoredWorkUnitState.expired, db)).Meets E fun r => I r.2 :=
      (h.expireWorkUnit db hI _ _).bind fun _ hI => hI
    split
    · exact hI
    · split
      · exact hI
      · exact hI
      · split
        · exact hI
        · exact hexpire
      · split
        · exact hI
        · exact hexpire

theorem workUnitBaseline (h : KeptQuietly allowed E I) (unit : String) :
    (db.workUnitBaseline unit).Meets E fun _ => True := by
  unfold Db.workUnitBaseline
  split
  · trivial
  · exact h.ordinary _ (by decide)

theorem readEntityInWorkUnit (h : KeptQuietly allowed E I) (hI : I db) (clock : Clock)
    (workUnit : WorkUnit) (key : EntityKey) (consistency : ReadConsistency) :
    (readEntityInWorkUnit db clock workUnit key consistency).Keeps E I :=
  h.sweepThen hI fun db hI => Ends.transaction hI <| (h.ensureWorkUnit hI workUnit).bind fun r hr => by
    dsimp only
    split
    · exact h.commitBeforeDeadline hr _ _ _
    · refine (h.workUnitBaseline _).bind fun baseline _ =>
        (h.consistencyObservation _ _ _ _).bind fun observed _ => ?_
      cases observed with
      | none => exact Ends.rollback _
      | some observation =>
        exact (h.captureWorkUnitEntity _ hr _ _).bind fun db hI =>
          h.commitBeforeDeadline (h.advanceReadSessions _ hI _ _ _) _ _ _

theorem findWorkUnitIdempotency (h : KeptQuietly allowed E I) (hI : I db) (unit identity : String)
    (request : Mutation) (now : ℕ) (allowReplay : Bool) :
    (findWorkUnitIdempotency db unit identity request now allowReplay).Meets E fun r => I r.2 :=
  (h.deleteOverdueIdempotency db hI now).bind fun db hI => by
    split
    · exact hI
    · split
      · exact hI
      · split <;> exact hI

theorem readIdempotencyInWorkUnit (h : KeptQuietly allowed E I) (hI : I db) (clock : Clock)
    (workUnit : WorkUnit) (consistency : ReadConsistency) (identity : String) (request : Mutation)
    (now : ℕ) (allowReplay : Bool) :
    (readIdempotencyInWorkUnit db clock workUnit consistency identity request now
      allowReplay).Keeps E I := by
  have hread : (readWorkUnitIdempotency db workUnit identity request now allowReplay).Meets E
      fun r => I r.2 :=
    (h.ensureWorkUnit hI workUnit).bind fun r hr => by
      dsimp only
      split
      · exact hr
      · exact hr
      all_goals exact h.findWorkUnitIdempotency hr _ _ _ _ _
  refine Ends.transaction hI (hread.bind fun r hr => (h.workUnitBaseline _).bind fun baseline _ =>
    (h.consistencyObservation _ _ _ _).bind fun observed _ => ?_)
  cases observed with
  | none => exact Ends.rollback _
  | some observation => exact h.commitBeforeDeadline (h.advanceReadSessions _ hr _ _ _) _ _ _

theorem retrieveEntitiesInWorkUnit (h : KeptQuietly allowed E I) (hI : I db) (search : Search)
    (clock : Clock) (workUnit : WorkUnit) (query : RetrieveQuery) (consistency : ReadConsistency) :
    (retrieveEntitiesInWorkUnit search db clock workUnit query consistency).Keeps E I :=
  h.sweepThen hI fun db hI => Ends.transaction hI <| (h.ensureWorkUnit hI workUnit).bind fun r hr => by
    dsimp only
    split
    · exact h.commitBeforeDeadline hr _ _ _
    · refine (h.workUnitBaseline _).bind fun baseline _ =>
        (h.consistencyObservation _ _ _ _).bind fun observed _ => ?_
      cases observed with
      | none => exact Ends.rollback _
      | some observation =>
        have hturn : ∀ found : Db × List RetrievedEntity, I found.1 → ∀ unit scope candidate,
            (retrieveCaptured unit scope found candidate).Meets E fun r => I r.1 := by
          intro found hfound unit scope candidate
          refine (h.captureWorkUnitEntity _ hfound _ _).bind fun db hI => ?_
          split <;> exact hI
        exact (Except.Meets.foldlM (P := fun found : Db × List RetrievedEntity => I found.1) hr
          fun found hfound candidate _ => hturn found hfound _ _ candidate).bind fun found hfound =>
            h.commitBeforeDeadline (h.advanceReadSessions _ hfound _ _ _) _ _ _

theorem stageIdempotency (h : KeptQuietly allowed E I) (hI : I db) (staged : WorkUnitCommit) :
    (db.stageIdempotency staged).Meets E fun r => I r.2 := by
  have hstore : ∀ unit idempotency now,
      (db.storeWorkUnitIdempotency unit idempotency now).Meets E fun r => I r.2 := by
    intro unit idempotency now
    refine (h.deleteOverdueIdempotency db hI now).bind fun db hI => ?_
    split
    · exact hI
    · rename_i hnone
      split
      · exact hI
      · rename_i hfree
        exact (h.insertWorkUnitIdempotency db hI unit idempotency hnone hfree).bind fun _ hI => hI
  unfold Db.stageIdempotency
  split
  · exact hI
  · refine (hstore _ _ _).bind fun r hr => ?_
    obtain ⟨outcome, new⟩ := r
    cases outcome with
    | missing => exact hr
    | replayed => exact hr
    | conflict => exact hr
    | unavailable => exact h.ordinary _ (by decide)

end KeptQuietly

namespace KeptByStatements

variable {allowed : EntityKey → StoredEntityVersion → Prop} {E : ProviderError → Prop}
  {I : Db → Prop} {db : Db}

/-! ### Immediate commits -/

/-- An immediate commit leaves the records alone. -/
theorem commitEntityInTransaction_records {commit : EntityCommit}
    {r : EntityCommitOutcome × Db} (h : db.commitEntityInTransaction commit = .ok r) :
    r.2.idempotency = db.idempotency ∧ r.2.unitIdempotency = db.unitIdempotency := by
  unfold Db.commitEntityInTransaction at h
  dsimp only at h
  split at h
  · simp only [Except.pure_eq_ok, Except.ok.injEq] at h
    exact h ▸ ⟨rfl, rfl⟩
  · obtain ⟨recordedAt, -, h⟩ := Except.bind_eq_ok.mp h
    obtain ⟨inserted, hinsert, h⟩ := Except.bind_eq_ok.mp h
    obtain ⟨replaced, hreplace, h⟩ := Except.bind_eq_ok.mp h
    obtain ⟨⟨cursor, changed⟩, hchange, h⟩ := Except.bind_eq_ok.mp h
    simp only [Except.pure_eq_ok, Except.ok.injEq] at h
    obtain ⟨_, _, _, _, rfl, -⟩ := insertEntityVersions_frame hinsert
    obtain ⟨-, -, -, rfl⟩ := replacePublishedHeads_eq_ok.mp hreplace
    obtain ⟨-, rfl⟩ := insertChange_eq_ok hchange
    exact h ▸ ⟨rfl, rfl⟩

theorem commitEntityInTransaction (h : KeptByStatements allowed E I) (hI : I db) {commit : EntityCommit}
    (hcarries : ∀ v ∈ commit.newVersions, allowed commit.key v) :
    (db.commitEntityInTransaction commit).Meets E fun r => I r.2 := by
  unfold Db.commitEntityInTransaction
  dsimp only
  split
  · exact hI
  · exact (h.sqliteTime _ (by decide)).bind fun recordedAt _ =>
      (h.insertEntityVersions db hI _ _ _ _ hcarries).bind fun db hI =>
        (h.replacePublishedHeads db hI _ _).bind fun db hI =>
          (h.insertChange db hI _ _ _ _ _ _).bind fun r hr =>
            h.publishEntityVersions _ (h.advanceWriteSessions _ hr _ _ _) _ _ _

theorem commitEntity (h : KeptByStatements allowed E I) (hI : I db) (clock : Clock)
    {entity : EntityCommit} (hcarries : ∀ v ∈ entity.newVersions, allowed entity.key v) :
    (commitEntity db clock entity).Keeps E I :=
  h.sweepThen hI fun db hI => Ends.transaction hI <| by
    split
    · exact h.ordinary _ (by decide)
    · refine (h.commitEntityInTransaction hI hcarries).bind fun r hr => ?_
      dsimp only
      split
      · exact h.commitBeforeDeadline hr _ _ _
      · exact Ends.rollback _

theorem commitEntityIdempotent (h : KeptByStatements allowed E I) (hI : I db) (clock : Clock)
    {entity : EntityCommit} (hcarries : ∀ v ∈ entity.newVersions, allowed entity.key v)
    (idempotency : IdempotencyRecord) (now : ℕ) :
    (commitEntityIdempotent db clock entity idempotency now).Keeps E I :=
  Ends.transaction hI <| (h.deleteOverdueIdempotency db hI now).bind fun db hI => by
    split
    · exact Ends.rollback _
    · split
      · exact Ends.rollback _
      · rename_i hnone hfree
        have hcommit := h.commitEntityInTransaction hI hcarries
        cases hcase : db.commitEntityInTransaction entity with
        | error error => exact hcommit.of_error hcase
        | ok r =>
          obtain ⟨hrecords, hunitRecords⟩ := commitEntityInTransaction_records hcase
          have hr := hcommit.of_ok hcase
          obtain ⟨outcome, new⟩ := r
          cases outcome with
          | conflict => exact Ends.rollback _
          | committed =>
            refine (h.insertIdempotency new hr idempotency ?_ ?_).bind fun db hI =>
              h.commitBeforeDeadline hI _ _ _
            · rw [idempotency?, hrecords]
              exact hnone
            · rw [unitIdempotency?, hunitRecords]
              exact Option.not_isSome_iff_eq_none.mp hfree

/-! ### Commits in a work unit -/

theorem publicationConflicts (h : KeptByStatements allowed E I) (db : Db) (unit : String) :
    (db.publicationConflicts unit).Meets E fun _ => True := by
  have hone : ∀ key, (db.publicationConflict unit key).Meets E fun _ => True := by
    intro key
    unfold Db.publicationConflict
    dsimp only
    split
    · trivial
    · split
      · exact h.ordinary _ (by decide)
      · split
        · exact h.ordinary _ (by decide)
        · split
          · exact h.ordinary _ (by decide)
          · trivial
  exact (Except.Meets.mapM fun key _ => hone key).bind fun _ _ => trivial

theorem deriveChangeKind (h : KeptByStatements allowed E I) (db : Db) (key : EntityKey)
    (baseline heads : List String) :
    (db.deriveChangeKind key baseline heads).Meets E fun _ => True := by
  unfold Db.deriveChangeKind
  split
  · trivial
  · split
    · trivial
    · split
      · trivial
      · split
        · exact h.ordinary _ (by decide)
        · split
          · exact h.ordinary _ (by decide)
          · split <;> trivial

theorem publishWorkUnitEntity (h : KeptByStatements allowed E I) (hI : I db) (unit : String)
    (recordedAt : ℕ) (key : EntityKey) :
    (Db.publishWorkUnitEntity unit recordedAt db key).Meets E I :=
  (h.replacePublishedHeads db hI _ _).bind fun db hI => (h.deriveChangeKind db _ _ _).bind fun _ _ => by
    split
    · exact (h.insertChange db hI _ _ _ _ _ _).bind fun r hr =>
        h.publishWorkUnitVersions _ (h.advanceWriteSessions _ hr _ _ _) _ _ _
    · exact h.ordinary _ (by decide)

theorem finishWorkUnitPublication (h : KeptByStatements allowed E I) (hI : I db) (unit : String)
    (recordedAt : ℕ) : (db.finishWorkUnitPublication unit recordedAt).Meets E I :=
  (Except.Meets.foldlM hI fun _ hI key _ => h.publishWorkUnitEntity hI unit recordedAt key).bind
    fun db hI => (h.publishUnitIdempotency db hI unit recordedAt).bind fun db hI =>
      h.markCommitted db hI unit recordedAt

theorem publishOrReport (h : KeptByStatements allowed E I) (hI : I db) (clock : Clock)
    (closing : WorkUnitCommit) : Ends E I (publishOrReport clock closing db) :=
  (h.publicationConflicts db _).bind fun conflicts _ => by
    split
    · exact (h.sqliteTime _ (by decide)).bind fun recordedAt _ =>
        (h.finishWorkUnitPublication hI _ _).bind fun db hI => h.commitBeforeDeadline hI _ _ _
    · exact h.commitBeforeDeadline hI _ _ _

theorem commitInOpenWorkUnit (h : KeptByStatements allowed E I) (hI : I db) (clock : Clock)
    {staged : WorkUnitCommit}
    (hcarries : ∀ v ∈ staged.entity.newVersions, allowed staged.entity.key v) :
    Ends E I (commitInOpenWorkUnit clock staged db) :=
  (h.captureWorkUnitEntity db hI _ _).bind fun db hI => by
    have hrecorded := h.recordStagedMutation db hI staged
    dsimp only
    split
    · exact Ends.rollback _
    · refine (h.sqliteTime _ (by decide)).bind fun recordedAt _ =>
        ((h.insertEntityVersions _ hrecorded _ _ _ _ hcarries).bind fun db hI =>
          h.replaceWorkUnitHeads db hI _ _ _).bind fun db hI =>
            (h.stageIdempotency hI staged).bind fun r hr => ?_
      obtain ⟨outcome, new⟩ := r
      cases outcome with
      | some outcome => exact Ends.rollback _
      | none =>
        dsimp only
        split
        · exact h.publishOrReport (h.markClosing new hr _) clock staged
        · exact h.commitBeforeDeadline hr _ _ _

theorem commitEntityInWorkUnit (h : KeptByStatements allowed E I) (hI : I db) (clock : Clock)
    {staged : WorkUnitCommit}
    (hcarries : ∀ v ∈ staged.entity.newVersions, allowed staged.entity.key v) :
    (commitEntityInWorkUnit db clock staged).Keeps E I :=
  h.sweepThen hI fun db hI => Ends.transaction hI <| by
    split
    · exact h.ordinary _ (by decide)
    · refine (h.ensureWorkUnit hI _).bind fun r hr => ?_
      obtain ⟨state, new⟩ := r
      cases state with
      | policyMismatch => exact h.commitBeforeDeadline hr _ _ _
      | committed => exact h.commitBeforeDeadline hr _ _ _
      | expired => exact h.commitBeforeDeadline hr _ _ _
      | closing =>
        dsimp only
        split
        · exact h.publishOrReport hr clock staged
        · exact h.commitBeforeDeadline hr _ _ _
      | opened => exact h.commitInOpenWorkUnit hr clock hcarries

/-! ### Publications -/

theorem publicationFailed (h : KeptByStatements allowed E I) {α : Type} {reply : Reply α}
    (hreply : reply.Keeps E I) :
    Reply.Keeps E I { reply with
      outcome := reply.outcome.mapError Patchouli.publicationFailed } := by
  refine ⟨fun error herror => ?_, hreply.2⟩
  obtain ⟨cause, hcause, rfl⟩ := Except.mapError_eq_error.mp herror
  exact h.publication cause (hreply.1 cause hcause)

/-- A resolution is applied to the conflict of its own entity. -/
theorem applyResolutions (h : KeptByStatements allowed E I) {publish : WorkUnitPublish}
    (hcarries : ∀ resolution ∈ publish.resolutions,
      ∀ v ∈ resolution.entity.newVersions, allowed resolution.entity.key v)
    (all conflicts : List WorkUnitConflict) (hI : I db) :
    (applyResolutions publish all conflicts db).Meets E
      fun applied => ∀ new, applied = .ok new → I new := by
  induction conflicts generalizing db with
  | nil =>
    rintro new ⟨⟩
    exact hI
  | cons conflict rest ih =>
    unfold Patchouli.applyResolutions
    split
    · exact fun _ h => nomatch h
    · rename_i resolution hfound
      split
      · exact fun _ h => nomatch h
      · split
        · exact fun _ h => nomatch h
        · split
          · exact h.ordinary _ (by decide)
          · have hmem := List.mem_of_find?_eq_some hfound
            have hkey : resolution.entity.key = conflict.key := by
              simpa using List.find?_some hfound
            refine (h.sqliteTime _ (by decide)).bind fun recordedAt _ =>
              (h.insertEntityVersions db hI _ _ _ _ ?_).bind fun db hI =>
                (h.replaceWorkUnitHeads db hI _ _ _).bind fun db hI => ih hI
            exact hkey ▸ hcarries resolution hmem

theorem publishWorkUnit (h : KeptByStatements allowed E I) (hI : I db) (clock : Clock)
    {publish : WorkUnitPublish}
    (hcarries : ∀ resolution ∈ publish.resolutions,
      ∀ v ∈ resolution.entity.newVersions, allowed resolution.entity.key v) :
    (publishWorkUnit db clock publish).Keeps E I := by
  have hclosing : ∀ db, I db → Ends E I (publishClosingWorkUnit publish db) := by
    intro db hI
    refine (h.publicationConflicts db _).bind fun conflicts _ => ?_
    split
    · exact Ends.rollback _
    · refine (h.applyResolutions hcarries conflicts conflicts hI).bind fun applied happlied => ?_
      cases applied with
      | error outcome => exact Ends.rollback _
      | ok new =>
        exact (h.sqliteTime _ (by decide)).bind fun recordedAt _ =>
          (h.finishWorkUnitPublication (happlied new rfl) _ _).bind fun db hI => Ends.commit hI _
  exact h.publicationFailed <| h.sweepThen hI fun db hI => Ends.transaction hI <|
    (h.ensureWorkUnit hI _).bind fun r hr => by
      obtain ⟨state, new⟩ := r
      cases state with
      | policyMismatch => exact Ends.commit hr _
      | committed => exact Ends.commit hr _
      | expired => exact Ends.commit hr _
      | closing => exact hclosing new hr
      | opened => exact h.ordinary _ (by decide)

end KeptByStatements

/-! ### Runs -/

namespace Operation

variable {allowed : EntityKey → StoredEntityVersion → Prop} {E : ProviderError → Prop}
  {I : Db → Prop} {db : Db}

/-- **An operation keeps what its statements keep.** -/
theorem keeps (h : KeptByStatements allowed E I) (hI : I db) (search : Search) (clock : Clock)
    {α : Type} (op : Operation α) (hcarries : op.Carries allowed) :
    (op.call search db clock).Keeps E I := by
  cases op with
  | readEntity key consistency => exact h.readEntity hI clock key consistency
  | readChanges query => exact h.readChanges hI query
  | retrieveEntities query consistency => exact h.retrieveEntities hI search clock query consistency
  | readIdempotency scope consistency identity request now =>
    exact h.readIdempotency hI clock scope consistency identity request now
  | commitEntity entity => exact h.commitEntity hI clock hcarries
  | commitEntityIdempotent entity idempotency now =>
    exact h.commitEntityIdempotent hI clock hcarries idempotency now
  | readEntityInWorkUnit workUnit key consistency =>
    exact h.readEntityInWorkUnit hI clock workUnit key consistency
  | readIdempotencyInWorkUnit workUnit consistency identity request now allowReplay =>
    exact h.readIdempotencyInWorkUnit hI clock workUnit consistency identity request now allowReplay
  | retrieveEntitiesInWorkUnit workUnit query consistency =>
    exact h.retrieveEntitiesInWorkUnit hI search clock workUnit query consistency
  | commitEntityInWorkUnit staged => exact h.commitEntityInWorkUnit hI clock hcarries
  | publishWorkUnit publish => exact h.publishWorkUnit hI clock hcarries

/-- Nothing need be asked of them. -/
theorem carries_anything {α : Type} (op : Operation α) : op.Carries fun _ _ => True := by
  cases op <;> simp [Carries]

/-- The states a provider can be in, if the versions it is given are `allowed`: any operations in any
order, with any times, and a crash between the two statements of a change query. -/
inductive Reaches (search : Search) (allowed : EntityKey → StoredEntityVersion → Prop) : Db → Prop
  | empty : Reaches search allowed Db.empty
  | call {db : Db} (h : Reaches search allowed db) (clock : Clock) {α : Type} (op : Operation α)
      (hcarries : op.Carries allowed) : Reaches search allowed (op.call search db clock).db
  | crash {db : Db} (h : Reaches search allowed db) (query : ChangeQuery) :
      Reaches search allowed (db.notePrune query)

/-- **And so does every run.** -/
theorem Reaches.kept {search : Search} (hkept : KeptByStatements allowed E I)
    (hempty : I Db.empty) (h : Reaches search allowed db) : I db := by
  induction h with
  | empty => exact hempty
  | call _ clock op hcarries ih => exact (op.keeps hkept ih search clock hcarries).2
  | crash _ query ih =>
    unfold notePrune
    split
    · exact ih
    · exact hkept.recordRetention _ ih _

end Operation

end Patchouli
