import Patchouli.Sqlite.Sweeps
import Patchouli.Sqlite.Operation

/-!
# Expiry when it is looked for

Most calls sweep first, and a sweep before their own changes nothing. The others read what is
published, and what is staged shows there in two places: the records of idempotency that units have
staged are looked up by every keyed call, and the text index scores a version by all versions that
are stored. So each of these calls is made on two databases, the one as it is and the swept one, and
compared statement by statement.

## Main definitions

* `Operation.ConsultsOverdue` — a call on which what is overdue shows
* `Reply.Alike` — the same outcome, and the same published state

## Main results

* `Operation.alike` — if a call does not consult it, a sweep before the call changes nothing
* `Operation.not_alike` — and if it does, the sweep changes what a keyed call answers
-/

namespace Patchouli

open Db

variable {A : Automerge} {α : Type} {db old new : Db} {now : ℕ}

/-! ### Transactions on two databases -/

namespace Db.Alike

theorem forgetOverdue (h : Alike old new) (now : ℕ) :
    Alike (old.forgetOverdue now) (new.forgetOverdue now) :=
  ⟨h.tables.forgetOverdue now, h.documents⟩

theorem advanceReadSessions (h : Alike old new) (scope : String) (consistency : ReadConsistency)
    (frontier : ℕ) : Alike (old.advanceReadSessions scope consistency frontier)
      (new.advanceReadSessions scope consistency frontier) :=
  ⟨h.tables.advanceReadSessions scope consistency frontier, h.documents⟩

end Db.Alike

/-- The same outcome, and the same published state. -/
def Reply.Alike (reply reply' : Reply α) : Prop :=
  reply'.outcome = reply.outcome ∧ Db.Alike reply.db reply'.db

theorem Reply.Alike.refl (reply : Reply α) : Reply.Alike reply reply := ⟨rfl, .refl _⟩

/-- Two transactions end alike. -/
inductive EndsAlike : Finished α → Finished α → Prop
  | rollback (value : α) : EndsAlike ⟨value, none⟩ ⟨value, none⟩
  | commit {old new : Db} (value : α) (h : Db.Alike old new) :
      EndsAlike ⟨value, some old⟩ ⟨value, some new⟩

theorem transaction_alike (h : Db.Alike old new) {body body' : Except ProviderError (Finished α)}
    (hbody : body.Agrees EndsAlike body') :
    Reply.Alike (transaction old body) (transaction new body') := by
  cases body with
  | error error =>
    cases body' with
    | error error' =>
      obtain rfl : error = error' := hbody
      exact ⟨rfl, h⟩
    | ok finished => exact hbody.elim
  | ok finished =>
    cases body' with
    | error error => exact hbody.elim
    | ok finished' =>
      have hends : EndsAlike finished finished' := hbody
      cases hends with
      | rollback value => exact ⟨rfl, h⟩
      | commit value h => exact ⟨rfl, h⟩

/-- The value is looked at only if the deadline has not passed. -/
theorem commitBeforeDeadline_agrees (h : Db.Alike old new) {now : ℕ} {deadline : Option ℕ}
    {value value' : α} (hvalue : (∀ d ∈ deadline, now < d) → value' = value) :
    (commitBeforeDeadline now deadline old value).Agrees EndsAlike
      (commitBeforeDeadline now deadline new value') := by
  cases deadline with
  | none =>
    rw [hvalue (by simp)]
    exact .commit value h
  | some d =>
    unfold commitBeforeDeadline
    dsimp only
    split
    · rfl
    · rename_i hlt
      rw [hvalue (by simpa using Nat.lt_of_not_le hlt)]
      exact .commit value h

/-- What is observed is the same. -/
theorem consistencyObservation_agrees (h : Db.Alike old new) (now : ℕ) (scope : String)
    (consistency : ReadConsistency) {frontier frontier' : ℕ} (hfrontier : frontier' = frontier) :
    (consistencyObservation old now scope consistency frontier).Agrees Eq
      (consistencyObservation new now scope consistency frontier') := by
  rw [hfrontier, h.tables.consistencyObservation_eq]
  exact Except.Agrees.rfl_of fun _ _ => rfl

/-! ### Reading calls -/

/-- A read that is answered: what it asks for can be had, and it ends before its deadline. -/
def Db.Answered (db : Db) (clock : Clock) (scope : String) (consistency : ReadConsistency)
    (frontier : ℕ) (deadline : Option ℕ) : Prop :=
  (∃ observation, consistencyObservation db clock.observe scope consistency frontier =
    .ok (some observation)) ∧ ∀ d ∈ deadline, clock.commit < d

variable {clock : Clock}

theorem readChanges_alike (h : Db.Alike old new) (query : ChangeQuery) :
    Reply.Alike (readChanges old query) (readChanges new query) := by
  have ht := h.tables
  unfold readChanges
  cases hbound : bindUnsigned query.retainedAfterUnixMs with
  | error error => exact ⟨rfl, h⟩
  | ok retainedAfter =>
    dsimp only
    refine ⟨?_, { ht with changes := ?_, changeRetention := ?_ }, h.documents⟩
    · have hfrontier := ht.currentScopeCursor_eq query.scopeJson
      unfold changePage deleteOverdueChanges recordRetention
      unfold currentScopeCursor at hfrontier ⊢
      dsimp only
      rw [hfrontier, ht.changes, ht.changeRetention]
    · show List.filter _ new.changes = List.filter _ old.changes
      rw [ht.changes]
    · unfold deleteOverdueChanges recordRetention
      rw [ht.changes, ht.changeRetention]

/-- A retrieval, if no published head it may list scores otherwise. -/
theorem retrieveEntities_alike (inv : Inv A old) (h : Swept now old new) (search : Search)
    {query : RetrieveQuery} {consistency : ReadConsistency}
    (hno : ¬ (old.Answered clock query.scopeJson consistency
        (old.currentScopeCursor query.scopeJson) consistency.deadlineUnixMs ∧
      ∃ row ∈ old.versions, old.PublishedHead row.key row.version ∧
        row.key.scopeJson = query.scopeJson ∧
        textScore search new query.text row ≠ textScore search old query.text row)) :
    Reply.Alike (retrieveEntities search old clock query consistency)
      (retrieveEntities search new clock query consistency) := by
  have halike := h.alike inv
  unfold retrieveEntities
  refine transaction_alike halike ((consistencyObservation_agrees halike _ _ _
    (halike.tables.currentScopeCursor_eq _)).bind ?_)
  rintro observed _ hobserved - rfl
  cases observed with
  | none => exact .rollback _
  | some observation =>
    refine commitBeforeDeadline_agrees (halike.advanceReadSessions _ _ _) fun hdeadline => ?_
    congr 1
    refine halike.tables.retrieveEntities_eq inv (h.expiries.keeps inv).1
      (Expiries.onlyExpired inv h.expiries).fields search query fun row hrow hhead hscope => ?_
    by_contra hscore
    exact hno ⟨⟨⟨observation, hobserved⟩, hdeadline⟩, row, hrow, hhead, hscope, hscore⟩

theorem readIdempotencyRecord_eq (hnow : now < 2 ^ 63) (identity : String) (request : Mutation) :
    readIdempotencyRecord db identity request now = .ok
      (match (db.forgetOverdue now).idempotency? identity with
        | some record =>
          if record.requestJson = request then .replayed record.resultJson else .conflict
        | none => if ((db.forgetOverdue now).unitIdempotency? identity).isSome then .conflict
            else .missing, db.forgetOverdue now) := by
  unfold readIdempotencyRecord
  rw [deleteOverdueIdempotency_eq db hnow]
  show (match (db.forgetOverdue now).idempotency? identity with | some record => _ | none => _) = _
  cases (db.forgetOverdue now).idempotency? identity <;> rfl

/-- A keyed call, if it does not look at the record of an overdue unit. -/
theorem readIdempotency_alike (inv : Inv A old) (h : Swept now old new) (hnow : now < 2 ^ 63)
    {scope identity : String} {consistency : ReadConsistency} {request : Mutation}
    (hno : ¬ (old.StagedOverdue identity now ∧ old.Answered clock scope consistency
      (old.currentScopeCursor scope) consistency.deadlineUnixMs)) :
    Reply.Alike (readIdempotency old clock scope consistency identity request now)
      (readIdempotency new clock scope consistency identity request now) := by
  have halike := h.alike inv
  unfold readIdempotency
  refine transaction_alike halike ((consistencyObservation_agrees halike _ _ _
    (halike.tables.currentScopeCursor_eq _)).bind ?_)
  rintro observed _ hobserved - rfl
  cases observed with
  | none => exact .rollback _
  | some observation =>
    dsimp only
    rw [readIdempotencyRecord_eq hnow, readIdempotencyRecord_eq hnow]
    refine commitBeforeDeadline_agrees ((halike.forgetOverdue now).advanceReadSessions _ _ _)
      fun hdeadline => ?_
    have hstaged : ¬ old.StagedOverdue identity now := fun hover =>
      hno ⟨hover, ⟨observation, hobserved⟩, hdeadline⟩
    rw [h.idempotency?_eq inv, h.unitIdempotency?_eq inv hstaged hnow]

/-- And if it does, it answers with a conflict that is none after a sweep. -/
theorem readIdempotency_of_overdue (inv : Inv A old) (h : Swept now old new)
    {scope identity : String} {consistency : ReadConsistency}
    (hover : old.StagedOverdue identity now) (hanswered : old.Answered clock scope consistency
      (old.currentScopeCursor scope) consistency.deadlineUnixMs) (request : Mutation) :
    (readIdempotency old clock scope consistency identity request now).outcome = .ok .conflict ∧
      (readIdempotency new clock scope consistency identity request now).outcome =
        .ok .missing := by
  have ht := (h.alike inv).tables
  have hnow := hover.1
  obtain ⟨hnone, hgone, staged, hfound, -⟩ := h.unitIdempotency?_of_overdue inv hover
  obtain ⟨⟨observation, hobserved⟩, hdeadline⟩ := hanswered
  have hcommit : ∀ (db : Db) (value : IdempotencyReadOutcome),
      commitBeforeDeadline clock.commit consistency.deadlineUnixMs db value =
        .ok ⟨value, some db⟩ := fun db value =>
    commitBeforeDeadline_eq_ok.mpr ⟨hdeadline, rfl⟩
  unfold readIdempotency
  rw [ht.currentScopeCursor_eq, ht.consistencyObservation_eq, hobserved]
  simp only [readIdempotencyRecord_eq hnow, h.idempotency?_eq inv, hnone, hgone, hfound,
    bind, Except.bind, hcommit]
  exact ⟨rfl, rfl⟩

/-! ### A keyed call in a unit -/

namespace Db

/-- The unit of a call can be used: it is new, or committed, or still open. -/
def UnitUsable (db : Db) (workUnit : WorkUnit) : Prop :=
  match db.workUnit? workUnit.identityJson with
  | none => workUnit.nowUnixMs < workUnit.expiresAtUnixMs ∧ workUnit.expiresAtUnixMs < 2 ^ 63
  | some row => row.scopeJson = workUnit.scopeJson ∧ row.policyJson = workUnit.policyJson ∧
      (row.state = .committed ∨ row.Live ∧ workUnit.nowUnixMs < row.expiresAtUnixMs)

/-- The frontier the unit of a call reads at. -/
def unitFrontier (db : Db) (workUnit : WorkUnit) : ℕ :=
  match db.workUnit? workUnit.identityJson with
  | none => db.currentScopeCursor workUnit.scopeJson
  | some row => row.baselineCursor

/-- What `ensure_work_unit` leaves, where a unit is or becomes usable. -/
structure EnsuredUsable (db : Db) (workUnit : WorkUnit) (opened : Db) : Prop where
  usable : db.UnitUsable workUnit
  tables : SameTables db opened
  baseline : opened.workUnitBaseline workUnit.identityJson = .ok (db.unitFrontier workUnit)
  records : opened.unitIdempotency = db.unitIdempotency

/-- A usable unit is not overdue. -/
theorem UnitUsable.not_overdue (inv : Inv A db) {workUnit : WorkUnit}
    (h : db.UnitUsable workUnit) : ∀ u ∈ db.workUnits, u.identityJson = workUnit.identityJson →
      ¬ u.Overdue workUnit.nowUnixMs := by
  rintro u hu hid ⟨hlive, hover⟩
  have hrow := workUnit?_of_mem inv.staging.unitKeys hu
  rw [hid] at hrow
  unfold UnitUsable at h
  rw [hrow] at h
  obtain ⟨-, -, hstate | ⟨-, hlater⟩⟩ := h
  · rcases hlive with hlive | hlive <;> rw [hlive] at hstate <;> cases hstate
  · exact Nat.not_lt.mpr hover hlater

end Db

/-- What `ensure_work_unit` leaves in two databases. -/
structure EnsuredAlike (workUnit : WorkUnit) (old new : Db) (o n : StoredWorkUnitState × Db) :
    Prop where
  state : o.1 = n.1
  alike : Db.Alike o.2 n.2
  baseline : n.2.workUnitBaseline workUnit.identityJson =
    o.2.workUnitBaseline workUnit.identityJson
  usable : o.1 ≠ .policyMismatch → o.1 ≠ .expired →
    EnsuredUsable old workUnit o.2 ∧ n.2.unitIdempotency = new.unitIdempotency

/-- An expiry comes to the same before a sweep and in it. -/
theorem expireWorkUnit_alike (inv : Inv A old) (h : Swept now old new) {u : WorkUnitRow}
    (hu : u ∈ old.workUnits) (hlive : u.Live) {mid : Db}
    (hexpire : old.expireWorkUnit u.identityJson now = .ok mid) : Db.Alike mid new := by
  have htables := expireWorkUnit_sameTables inv ⟨u, hu, rfl, hlive⟩ hexpire
  have halike := (h.alike inv).tables
  have hfields := (Expiries.onlyExpired inv h.expiries).fields
  refine .of_sameFields (htables.symm.trans halike) fun row hrow hnone => ?_
  have hold := (htables.mem_versions hnone).mp hrow
  rw [hfields row hold hnone, (inv.expire hu hlive hexpire).2.fields row hold hnone]

theorem workUnitBaseline_expireWorkUnit {unit : String}
    (h : old.expireWorkUnit unit now = .ok new) (identity : String) :
    new.workUnitBaseline identity = old.workUnitBaseline identity := by
  obtain ⟨rfl, -⟩ := expireWorkUnit_spec h
  have hfind : ∀ rows : List WorkUnitRow, ((rows.map fun row =>
      if row.identityJson = unit ∧ row.Live then
        { row with state := .expired, closedAtUnixMs := some now } else row).find?
          (·.identityJson = identity)).map (·.baselineCursor) =
        (rows.find? (·.identityJson = identity)).map (·.baselineCursor) := by
    intro rows
    induction rows with
    | nil => rfl
    | cons row rows ih =>
      rw [List.map_cons, List.find?_cons, List.find?_cons]
      by_cases hrow : row.identityJson = unit ∧ row.Live
      · rw [if_pos hrow]
        by_cases hid : row.identityJson = identity
        · simp [hid]
        · simpa [hid] using ih
      · rw [if_neg hrow]
        by_cases hid : row.identityJson = identity
        · simp [hid]
        · simpa [hid] using ih
  have hcursor : ∀ db : Db, db.workUnitBaseline identity =
      ((db.workUnits.find? (·.identityJson = identity)).map (·.baselineCursor)).elim
        (.error (databaseError "Query returned no rows")) .ok := by
    intro db
    unfold workUnitBaseline Db.workUnit?
    cases db.workUnits.find? (·.identityJson = identity) <;> rfl
  rw [hcursor, hcursor, ← hfind old.workUnits]
  rfl

theorem openWorkUnit_baseline {workUnit : WorkUnit} (now expires : ℕ)
    (hnone : db.workUnit? workUnit.identityJson = none) :
    (db.openWorkUnit workUnit now expires).workUnitBaseline workUnit.identityJson =
      .ok (db.currentScopeCursor workUnit.scopeJson) := by
  unfold Db.workUnit? at hnone
  unfold workUnitBaseline Db.workUnit? openWorkUnit
  dsimp only
  rw [List.find?_append, hnone]
  simp

theorem openWorkUnit_sameTables (db : Db) (workUnit : WorkUnit) (now expires : ℕ) :
    SameTables db (db.openWorkUnit workUnit now expires) :=
  ⟨rfl, rfl, rfl, rfl, rfl, rfl, rfl, rfl, rfl, rfl⟩

section Ensure

variable (inv : Inv A old) (h : Swept now old new) {workUnit : WorkUnit}

include inv h

/-- A new unit is opened before and after a sweep. -/
theorem ensureWorkUnit_agrees_of_none (hrow : old.workUnit? workUnit.identityJson = none) :
    (old.ensureWorkUnit workUnit).Agrees (EnsuredAlike workUnit old new)
      (new.ensureWorkUnit workUnit) := by
  have halike := h.alike inv
  have hnone : new.workUnit? workUnit.identityJson = none := by
    rw [h.workUnit?, hrow]
    rfl
  unfold ensureWorkUnit
  rw [hnone, hrow]
  refine Except.Agrees.bind (R := Eq) (Except.Agrees.rfl_of fun _ _ => rfl) ?_
  rintro opensAt _ hopens - rfl
  refine Except.Agrees.bind (R := Eq) (Except.Agrees.rfl_of fun _ _ => rfl) ?_
  rintro expiresAt _ hexpires - rfl
  obtain ⟨-, rfl⟩ := sqliteTime_eq_ok.mp hopens
  obtain ⟨hbound, rfl⟩ := sqliteTime_eq_ok.mp hexpires
  split
  · rfl
  · rename_i hlater
    have hopened := fun db => openWorkUnit_sameTables db workUnit workUnit.nowUnixMs
      workUnit.expiresAtUnixMs
    refine ⟨rfl, ⟨((hopened old).symm.trans halike.tables).trans (hopened new),
      halike.documents⟩, ?_, fun _ _ => ⟨⟨?_, hopened old, ?_, rfl⟩, rfl⟩⟩
    · rw [openWorkUnit_baseline _ _ hrow, openWorkUnit_baseline _ _ hnone,
        halike.tables.currentScopeCursor_eq]
    · unfold UnitUsable
      rw [hrow]
      exact ⟨Nat.lt_of_not_le hlater, hbound⟩
    · rw [openWorkUnit_baseline _ _ hrow]
      unfold unitFrontier
      rw [hrow]

/-- A unit that is overdue expires when it is named, if it has not in a sweep; others are as they
are. -/
theorem ensureWorkUnit_agrees_of_some (hnow : now < 2 ^ 63) (hissued : workUnit.nowUnixMs = now)
    {row : WorkUnitRow} (hrow : old.workUnit? workUnit.identityJson = some row) :
    (old.ensureWorkUnit workUnit).Agrees (EnsuredAlike workUnit old new)
      (new.ensureWorkUnit workUnit) := by
  have halike := h.alike inv
  have hbaseline := h.workUnitBaseline_eq workUnit.identityJson
  obtain ⟨hmem, hid⟩ := workUnit?_eq_some hrow
  have hsame : (row.swept now).scopeJson = row.scopeJson ∧
      (row.swept now).policyJson = row.policyJson ∧
      (row.swept now).expiryAction = row.expiryAction := by
    unfold WorkUnitRow.swept
    split <;> exact ⟨rfl, rfl, rfl⟩
  unfold ensureWorkUnit
  rw [h.workUnit?, hrow, Option.map_some]
  dsimp only
  rw [hsame.1, hsame.2.1, hsame.2.2]
  split
  · exact ⟨rfl, halike, hbaseline, fun hne => absurd rfl hne⟩
  rename_i hmatches
  simp only [not_or, not_not] at hmatches
  by_cases hover : row.Overdue now
  · have hstate : (row.swept now).state = .expired := congrArg WorkUnitRow.state (if_pos hover)
    have hlate : ¬ now < row.expiresAtUnixMs := Nat.not_lt.mpr hover.2
    obtain ⟨mid, hmid⟩ := expireWorkUnit_isOk hnow
      fun base hbase => inv.base_not_staged hbase workUnit.identityJson
    have hends : EnsuredAlike workUnit old new (.expired, mid) (.expired, new) := by
      refine ⟨rfl, expireWorkUnit_alike inv h hmem hover.1 (hid ▸ hmid), ?_,
        fun _ hne => absurd rfl hne⟩
      rw [hbaseline, workUnitBaseline_expireWorkUnit hmid]
    rw [hstate, hissued, hmid]
    rcases hover.1 with hopen | hclosing
    · simp only [hopen, if_neg hlate]
      exact hends
    · simp only [hclosing, if_neg hlate]
      exact hends
  · have heq : row.swept now = row := if_neg hover
    have hlater : row.Live → workUnit.nowUnixMs < row.expiresAtUnixMs := by
      intro hlive
      rw [hissued]
      exact Nat.lt_of_not_le fun hle => hover ⟨hlive, hle⟩
    have hends : ∀ state, row.state = .committed ∨
        row.Live ∧ workUnit.nowUnixMs < row.expiresAtUnixMs →
        EnsuredAlike workUnit old new (state, old) (state, new) := by
      intro state hstate
      refine ⟨rfl, halike, hbaseline, fun _ _ => ⟨⟨?_, .refl old, ?_, rfl⟩, rfl⟩⟩
      · unfold UnitUsable
        rw [hrow]
        exact ⟨hmatches.1, hmatches.2.1, hstate⟩
      · unfold workUnitBaseline unitFrontier
        rw [hrow]
    rw [heq]
    cases hstate : row.state with
    | committed => exact hends _ (Or.inl hstate)
    | expired => exact ⟨rfl, halike, hbaseline, fun _ hne => absurd rfl hne⟩
    | opened =>
      have hlive : row.Live := Or.inl hstate
      simp only [if_pos (hlater hlive)]
      exact hends _ (Or.inr ⟨hlive, hlater hlive⟩)
    | closing =>
      have hlive : row.Live := Or.inr hstate
      simp only [if_pos (hlater hlive)]
      exact hends _ (Or.inr ⟨hlive, hlater hlive⟩)

theorem ensureWorkUnit_agrees (hnow : now < 2 ^ 63) (hissued : workUnit.nowUnixMs = now) :
    (old.ensureWorkUnit workUnit).Agrees (EnsuredAlike workUnit old new)
      (new.ensureWorkUnit workUnit) := by
  cases hrow : old.workUnit? workUnit.identityJson with
  | none => exact ensureWorkUnit_agrees_of_none inv h hrow
  | some row => exact ensureWorkUnit_agrees_of_some inv h hnow hissued hrow

end Ensure

theorem findWorkUnitIdempotency_eq (hnow : now < 2 ^ 63) (unit identity : String)
    (request : Mutation) (allowReplay : Bool) :
    findWorkUnitIdempotency db unit identity request now allowReplay = .ok
      (match (db.forgetOverdue now).idempotency? identity with
        | some record =>
          if record.requestJson = request then .replayed record.resultJson else .conflict
        | none =>
          match (db.forgetOverdue now).unitIdempotency? identity with
          | none => .missing
          | some staged =>
            if staged.workUnitJson = unit ∧ staged.record.requestJson = request then
              if allowReplay then .replayed staged.record.resultJson else .missing
            else .conflict, db.forgetOverdue now) := by
  unfold findWorkUnitIdempotency
  rw [deleteOverdueIdempotency_eq db hnow]
  simp only [bind, Except.bind]
  cases (db.forgetOverdue now).idempotency? identity with
  | some record => rfl
  | none =>
    cases (db.forgetOverdue now).unitIdempotency? identity with
    | none => rfl
    | some staged =>
      dsimp only
      split <;> rfl

/-- What `read_work_unit_idempotency` leaves in two databases. -/
structure FoundAlike (workUnit : WorkUnit) (identity : String) (now : ℕ) (old : Db)
    (o n : IdempotencyReadOutcome × Db) : Prop where
  alike : Db.Alike o.2 n.2
  baseline : n.2.workUnitBaseline workUnit.identityJson =
    o.2.workUnitBaseline workUnit.identityJson
  value : n.1 = o.1 ∨ old.StagedOverdue identity now ∧
    ∃ opened, EnsuredUsable old workUnit opened ∧ o.2 = opened.forgetOverdue now

section Keyed

variable (inv : Inv A old) (h : Swept now old new) (hnow : now < 2 ^ 63) {workUnit : WorkUnit}
  (hissued : workUnit.nowUnixMs = now) {identity : String} {request : Mutation}
  {allowReplay : Bool}

include inv h hnow hissued

omit inv h hnow hissued in
/-- In a unit that is usable the lookups are those of the tables as they were. -/
theorem EnsuredAlike.lookups (now : ℕ) {o n : StoredWorkUnitState × Db}
    (hensured : EnsuredAlike workUnit old new o n) (hmatch : o.1 ≠ .policyMismatch)
    (hlive : o.1 ≠ .expired) (identity : String) :
    (o.2.forgetOverdue now).idempotency? identity = (old.forgetOverdue now).idempotency? identity ∧
    (n.2.forgetOverdue now).idempotency? identity = (old.forgetOverdue now).idempotency? identity ∧
    (o.2.forgetOverdue now).unitIdempotency? identity =
      (old.forgetOverdue now).unitIdempotency? identity ∧
    (n.2.forgetOverdue now).unitIdempotency? identity =
      (new.forgetOverdue now).unitIdempotency? identity := by
  obtain ⟨hopened, hnewRecords⟩ := hensured.usable hmatch hlive
  have hrecords := hopened.tables.idempotency
  unfold idempotency? unitIdempotency? forgetOverdue
  dsimp only
  rw [hensured.alike.tables.idempotency, hrecords, hopened.records, hnewRecords]
  exact ⟨rfl, rfl, rfl, rfl⟩

/-- The record of an overdue unit is a conflict, until it is swept. -/
theorem findWorkUnitIdempotency_of_overdue {o n : StoredWorkUnitState × Db}
    (hensured : EnsuredAlike workUnit old new o n) (hmatch : o.1 ≠ .policyMismatch)
    (hlive : o.1 ≠ .expired) (hover : old.StagedOverdue identity now) (request : Mutation)
    (allowReplay : Bool) :
    findWorkUnitIdempotency o.2 workUnit.identityJson identity request now allowReplay =
        .ok (.conflict, o.2.forgetOverdue now) ∧
      findWorkUnitIdempotency n.2 workUnit.identityJson identity request now allowReplay =
        .ok (.missing, n.2.forgetOverdue now) := by
  obtain ⟨hopened, -⟩ := hensured.usable hmatch hlive
  obtain ⟨hone, hone', htwo, htwo'⟩ := hensured.lookups now hmatch hlive identity
  obtain ⟨hnone, hgone, staged, hfound, u, hu, hunit, hoverdue⟩ :=
    h.unitIdempotency?_of_overdue inv hover
  have hother : staged.workUnitJson ≠ workUnit.identityJson := fun hsame =>
    hopened.usable.not_overdue inv u hu (hunit.trans hsame) (hissued ▸ hoverdue)
  rw [findWorkUnitIdempotency_eq hnow, findWorkUnitIdempotency_eq hnow, hone, hone', htwo, htwo',
    hnone, hfound, hgone]
  refine ⟨?_, rfl⟩
  dsimp only
  rw [if_neg fun hsame => hother hsame.1]

/-- The records are looked up alike in a unit that is usable. -/
theorem findWorkUnitIdempotency_agrees {o n : StoredWorkUnitState × Db}
    (hensured : EnsuredAlike workUnit old new o n) (hmatch : o.1 ≠ .policyMismatch)
    (hlive : o.1 ≠ .expired) :
    (findWorkUnitIdempotency o.2 workUnit.identityJson identity request now allowReplay).Agrees
      (FoundAlike workUnit identity now old)
      (findWorkUnitIdempotency n.2 workUnit.identityJson identity request now allowReplay) := by
  by_cases hover : old.StagedOverdue identity now
  · obtain ⟨hopened, -⟩ := hensured.usable hmatch hlive
    obtain ⟨hold, hnew⟩ := findWorkUnitIdempotency_of_overdue inv h hnow hissued hensured
      hmatch hlive hover request allowReplay
    rw [hold, hnew]
    exact ⟨hensured.alike.forgetOverdue now, hensured.baseline,
      Or.inr ⟨hover, o.2, hopened, rfl⟩⟩
  · obtain ⟨hone, hone', htwo, htwo'⟩ := hensured.lookups now hmatch hlive identity
    rw [findWorkUnitIdempotency_eq hnow, findWorkUnitIdempotency_eq hnow, hone, hone', htwo,
      htwo', h.unitIdempotency?_eq inv hover hnow]
    exact ⟨hensured.alike.forgetOverdue now, hensured.baseline, Or.inl rfl⟩

theorem readWorkUnitIdempotency_agrees :
    (readWorkUnitIdempotency old workUnit identity request now allowReplay).Agrees
      (FoundAlike workUnit identity now old)
      (readWorkUnitIdempotency new workUnit identity request now allowReplay) := by
  unfold readWorkUnitIdempotency
  refine (ensureWorkUnit_agrees inv h hnow hissued).bind ?_
  rintro ⟨state, o⟩ ⟨_, n⟩ - - hensured
  obtain rfl : state = _ := hensured.state
  cases state with
  | policyMismatch => exact ⟨hensured.alike, hensured.baseline, Or.inl rfl⟩
  | expired => exact ⟨hensured.alike, hensured.baseline, Or.inl rfl⟩
  | opened => exact findWorkUnitIdempotency_agrees inv h hnow hissued hensured (by simp) (by simp)
  | closing => exact findWorkUnitIdempotency_agrees inv h hnow hissued hensured (by simp) (by simp)
  | committed =>
    exact findWorkUnitIdempotency_agrees inv h hnow hissued hensured (by simp) (by simp)

/-- A keyed call in a unit, if it does not look at the record of an overdue unit. -/
theorem readIdempotencyInWorkUnit_alike {consistency : ReadConsistency}
    (hno : ¬ (old.StagedOverdue identity now ∧ old.UnitUsable workUnit ∧
      old.Answered clock workUnit.scopeJson consistency (old.unitFrontier workUnit)
        workUnit.deadlineUnixMs)) :
    Reply.Alike
      (readIdempotencyInWorkUnit old clock workUnit consistency identity request now allowReplay)
      (readIdempotencyInWorkUnit new clock workUnit consistency identity request now
        allowReplay) := by
  unfold readIdempotencyInWorkUnit
  refine transaction_alike (h.alike inv)
    ((readWorkUnitIdempotency_agrees inv h hnow hissued).bind ?_)
  rintro ⟨value, o⟩ ⟨value', n⟩ - - hfound
  dsimp only
  rw [show n.workUnitBaseline workUnit.identityJson = o.workUnitBaseline workUnit.identityJson
    from hfound.baseline]
  refine Except.Agrees.bind (R := Eq) (Except.Agrees.rfl_of fun _ _ => rfl) ?_
  rintro baseline _ hbaseline - rfl
  refine (consistencyObservation_agrees hfound.alike _ _ _ rfl).bind ?_
  rintro observed _ hobserved - rfl
  cases observed with
  | none => exact .rollback _
  | some observation =>
    refine commitBeforeDeadline_agrees (hfound.alike.advanceReadSessions _ _ _) fun hdeadline => ?_
    rcases hfound.value with hsame | ⟨hover, opened, hopened, heq⟩
    · exact hsame
    · exfalso
      obtain rfl : o = opened.forgetOverdue now := heq
      have hcursor : baseline = old.unitFrontier workUnit := by
        have hopen : opened.workUnitBaseline workUnit.identityJson = .ok baseline := hbaseline
        rw [hopened.baseline, Except.ok.injEq] at hopen
        exact hopen.symm
      have hopen : consistencyObservation opened clock.observe workUnit.scopeJson consistency
          baseline = .ok (some observation) := hobserved
      rw [hopened.tables.consistencyObservation_eq, hcursor] at hopen
      exact hno ⟨hover, hopened.usable, ⟨observation, hopen⟩, hdeadline⟩

omit inv h hnow in
theorem UnitUsable.ensured (hbound : now < 2 ^ 63) (husable : old.UnitUsable workUnit) :
    ∃ state opened, old.ensureWorkUnit workUnit = .ok (state, opened) ∧
      state ≠ .policyMismatch ∧ state ≠ .expired := by
  unfold UnitUsable at husable
  unfold ensureWorkUnit
  cases hrow : old.workUnit? workUnit.identityJson with
  | none =>
    rw [hrow] at husable
    obtain ⟨hlater, hexpires⟩ := husable
    have hopens : ∀ message, sqliteTime workUnit.nowUnixMs message = .ok workUnit.nowUnixMs :=
      fun message => sqliteTime_eq_ok.mpr ⟨hissued ▸ hbound, rfl⟩
    have hends : ∀ message, sqliteTime workUnit.expiresAtUnixMs message =
        .ok workUnit.expiresAtUnixMs := fun message => sqliteTime_eq_ok.mpr ⟨hexpires, rfl⟩
    simp only [hopens, hends, bind, Except.bind, if_neg (Nat.not_le.mpr hlater)]
    exact ⟨_, _, rfl, by simp, by simp⟩
  | some row =>
    rw [hrow] at husable
    obtain ⟨hscope, hpolicy, hstate⟩ := husable
    have hmatches : ¬ (row.scopeJson ≠ workUnit.scopeJson ∨ row.policyJson ≠ workUnit.policyJson ∨
        row.expiryAction ≠ workUnit.expiryAction) := by
      cases row.expiryAction
      cases workUnit.expiryAction
      simp [hscope, hpolicy]
    simp only [if_neg hmatches]
    rcases hstate with hcommitted | ⟨hopen | hclosing, hlater⟩
    · simp only [hcommitted]
      exact ⟨_, _, rfl, by simp, by simp⟩
    · simp only [hopen, if_pos hlater]
      exact ⟨_, _, rfl, by simp, by simp⟩
    · simp only [hclosing, if_pos hlater]
      exact ⟨_, _, rfl, by simp, by simp⟩

omit inv h hnow hissued in
theorem readIdempotencyInWorkUnit_answered {consistency : ReadConsistency} {opened : Db}
    {value : IdempotencyReadOutcome} {baseline : ℕ} {observation : ReadObservation}
    (hread : readWorkUnitIdempotency db workUnit identity request now allowReplay =
      .ok (value, opened))
    (hbaseline : opened.workUnitBaseline workUnit.identityJson = .ok baseline)
    (hobserved : consistencyObservation opened clock.observe workUnit.scopeJson consistency
      baseline = .ok (some observation))
    (hdeadline : ∀ d ∈ workUnit.deadlineUnixMs, clock.commit < d) :
    (readIdempotencyInWorkUnit db clock workUnit consistency identity request now
      allowReplay).outcome = .ok value := by
  have hcommit : ∀ db : Db, commitBeforeDeadline clock.commit workUnit.deadlineUnixMs db value =
      .ok ⟨value, some db⟩ := fun db => commitBeforeDeadline_eq_ok.mpr ⟨hdeadline, rfl⟩
  unfold readIdempotencyInWorkUnit
  simp only [hread, hbaseline, hobserved, hcommit, bind, Except.bind]
  rfl

/-- And if it does, it answers with a conflict that is none after a sweep. -/
theorem readIdempotencyInWorkUnit_of_overdue {consistency : ReadConsistency}
    (hover : old.StagedOverdue identity now) (husable : old.UnitUsable workUnit)
    (hanswered : old.Answered clock workUnit.scopeJson consistency (old.unitFrontier workUnit)
      workUnit.deadlineUnixMs) (request : Mutation) (allowReplay : Bool) :
    (readIdempotencyInWorkUnit old clock workUnit consistency identity request now
        allowReplay).outcome = .ok .conflict ∧
      (readIdempotencyInWorkUnit new clock workUnit consistency identity request now
        allowReplay).outcome = .ok .missing := by
  obtain ⟨state, o, hold, hmatch, hlive⟩ := UnitUsable.ensured hissued hnow husable
  have hagrees := ensureWorkUnit_agrees inv h hnow hissued
  rw [hold] at hagrees
  cases hnew : new.ensureWorkUnit workUnit with
  | error error =>
    rw [hnew] at hagrees
    exact hagrees.elim
  | ok n =>
    rw [hnew] at hagrees
    have hensured : EnsuredAlike workUnit old new (state, o) n := hagrees
    obtain ⟨state', n⟩ := n
    obtain rfl : state = state' := hensured.state
    have hread : ∀ (db : Db) value, findWorkUnitIdempotency db workUnit.identityJson identity
        request now allowReplay = .ok value → ∀ db', db'.ensureWorkUnit workUnit = .ok (state, db) →
          readWorkUnitIdempotency db' workUnit identity request now allowReplay = .ok value := by
      intro db value hfind db' hensure
      unfold readWorkUnitIdempotency
      rw [hensure]
      cases state with
      | policyMismatch => exact absurd rfl hmatch
      | expired => exact absurd rfl hlive
      | opened => exact hfind
      | closing => exact hfind
      | committed => exact hfind
    obtain ⟨hfindOld, hfindNew⟩ := findWorkUnitIdempotency_of_overdue inv h hnow hissued hensured
      hmatch hlive hover request allowReplay
    have hreadOld := hread o _ hfindOld old hold
    have hreadNew := hread n _ hfindNew new hnew
    obtain ⟨hopened, -⟩ := hensured.usable hmatch hlive
    obtain ⟨⟨observation, hobserved⟩, hdeadline⟩ := hanswered
    rw [← hopened.tables.consistencyObservation_eq] at hobserved
    refine ⟨readIdempotencyInWorkUnit_answered hreadOld hopened.baseline hobserved hdeadline, ?_⟩
    rw [← hensured.alike.tables.consistencyObservation_eq] at hobserved
    exact readIdempotencyInWorkUnit_answered hreadNew (hensured.baseline.trans hopened.baseline)
      hobserved hdeadline

end Keyed

/-! ### A keyed commit -/

/-- A unit that expires takes versions with it, and brings none. -/
theorem Db.Expiries.versions_subset {latest : ℕ} (h : Expiries latest old new) :
    new.versions ⊆ old.versions := by
  induction h with
  | refl => exact List.Subset.refl _
  | tail _ hstep ih =>
    obtain ⟨-, -, -, hexpire⟩ := hstep
    obtain ⟨rfl, -⟩ := expireWorkUnit_spec hexpire
    exact fun row hrow => ih (List.mem_of_mem_filter hrow)

theorem Db.Alike.insertIdempotency (h : Db.Alike old new) (record : IdempotencyRecord) :
    (old.insertIdempotency record).Agrees Db.Alike (new.insertIdempotency record) := by
  have ht := h.tables
  unfold Db.insertIdempotency
  refine Except.Agrees.bind (R := Eq) (Except.Agrees.rfl_of fun _ _ => rfl) ?_
  rintro _ _ - - -
  refine Except.Agrees.bind (require_agrees (by rw [ht.idempotency]) _) fun _ _ _ _ _ => ?_
  exact ⟨{ ht with idempotency := congrArg (· ++ [record]) ht.idempotency }, h.documents⟩

theorem Db.Inv.forgetOverdue (inv : Inv A db) (hnow : now < 2 ^ 63) :
    Inv A (db.forgetOverdue now) :=
  (Upkeeps.keeps (K := Known.nothing) inv
    (.single (deleteOverdueIdempotency_upkeep (deleteOverdueIdempotency_eq db hnow)))).1

section KeyedCommit

variable (inv : Inv A old) (h : Swept now old new) {entity : EntityCommit}
  {record : IdempotencyRecord}

include inv h

/-- A keyed commit, if it does not look at the record of an overdue unit. -/
theorem commitEntityIdempotent_alike (hlaw : A.Lawful) (hnow : now < 2 ^ 63)
    (hpromised : Promised A entity) (hnames : NamesUnstaged entity old)
    (hno : ¬ old.StagedOverdue record.identityJson now) :
    Reply.Alike (commitEntityIdempotent old clock entity record now)
      (commitEntityIdempotent new clock entity record now) := by
  have halike := h.alike inv
  have hnewNames : NamesUnstaged entity new := fun v hv row hrow =>
    hnames v hv row (Expiries.versions_subset h.expiries hrow)
  unfold commitEntityIdempotent
  refine transaction_alike halike ?_
  rw [deleteOverdueIdempotency_eq old hnow, deleteOverdueIdempotency_eq new hnow]
  simp only [bind, Except.bind]
  rw [h.idempotency?_eq inv, h.unitIdempotency?_eq inv hno hnow]
  cases (old.forgetOverdue now).idempotency? record.identityJson with
  | some found => exact .rollback _
  | none =>
    dsimp only
    split
    · exact .rollback _
    · refine ((halike.forgetOverdue now).commitEntityInTransaction hlaw (inv.forgetOverdue hnow)
        ((h.expiries.keeps inv).1.forgetOverdue hnow) hpromised hnames hnewNames).bind ?_
      rintro ⟨outcome, o⟩ ⟨_, n⟩ - - ⟨rfl, hcommitted⟩
      cases outcome with
      | conflict currentHeads => exact .rollback _
      | committed =>
        refine (hcommitted.insertIdempotency record).bind fun o n _ _ hrecorded => ?_
        exact commitBeforeDeadline_agrees hrecorded fun _ => rfl

/-- And if it does, it is refused, as it is not after a sweep. -/
theorem commitEntityIdempotent_of_overdue
    (hover : old.StagedOverdue record.identityJson now) :
    (commitEntityIdempotent old clock entity record now).outcome = .ok .idempotencyConflict ∧
      (commitEntityIdempotent new clock entity record now).outcome ≠ .ok .idempotencyConflict := by
  have hnow := hover.1
  obtain ⟨hnone, hgone, staged, hfound, -⟩ := h.unitIdempotency?_of_overdue inv hover
  constructor
  · unfold commitEntityIdempotent
    rw [deleteOverdueIdempotency_eq old hnow]
    simp only [bind, Except.bind, hnone, hfound]
    rfl
  · intro hrefused
    obtain ⟨committed, hbody, -⟩ := transaction_eq_ok hrefused
    rw [deleteOverdueIdempotency_eq new hnow] at hbody
    simp only [bind, Except.bind] at hbody
    rw [h.idempotency?_eq inv, hnone, hgone] at hbody
    simp only [Option.isSome_none, Bool.false_eq_true, if_false] at hbody
    obtain ⟨⟨outcome, committed⟩, -, hbody⟩ := Except.bind_eq_ok.mp hbody
    cases outcome with
    | conflict currentHeads => simp [rollback] at hbody
    | committed =>
      obtain ⟨recorded, -, hbody⟩ := Except.bind_eq_ok.mp hbody
      have hvalue := (commitBeforeDeadline_eq_ok.mp hbody).2
      simp at hvalue

end KeyedCommit

/-! ### Any call -/

/-- A sweep before a call that sweeps is one sweep too many. -/
theorem sweepThen_again (inv : Inv A db) (hnow : clock.sweep < 2 ^ 63) (call : Db → Reply α) :
    sweepThen (db.sweepExpiredWorkUnits clock.sweep).db clock call = sweepThen db clock call := by
  have hok := sweepExpiredWorkUnits_isOk inv hnow
  have hagain := (sweepExpiredWorkUnits_spec inv hok).again hnow
  cases hsweep : db.sweepExpiredWorkUnits clock.sweep with
  | mk outcome swept =>
    rw [hsweep] at hok hagain
    dsimp only at hok hagain
    unfold sweepThen
    rw [hsweep, hagain, hok]

namespace Operation

/-- The times a call brings, where it does not sweep first, are `now`. -/
def IssuedAt (now : ℕ) : {α : Type} → Operation α → Prop
  | _, readIdempotency _ _ _ _ time => time = now
  | _, commitEntityIdempotent _ _ time => time = now
  | _, readIdempotencyInWorkUnit workUnit _ _ _ time _ => workUnit.nowUnixMs = now ∧ time = now
  | _, _ => True

/-- What the caller promises of a call that commits without a sweep: versions whole and with names
of their own. -/
def PromisedIn (A : Automerge) (db : Db) : {α : Type} → Operation α → Prop
  | _, commitEntityIdempotent entity _ _ => Promised A entity ∧ NamesUnstaged entity db
  | _, _ => True

/-- **A call on which what is overdue shows.** A keyed call finds a record that an overdue unit has
staged; a retrieval lists a published head that scores otherwise once the sweep has deleted what
overdue units have staged. Where a read is not answered nothing shows. -/
def ConsultsOverdue (search : Search) (db : Db) (clock : Clock) : {α : Type} → Operation α → Prop
  | _, readIdempotency scope consistency identity _ now =>
      db.StagedOverdue identity now ∧ db.Answered clock scope consistency
        (db.currentScopeCursor scope) consistency.deadlineUnixMs
  | _, readIdempotencyInWorkUnit workUnit consistency identity _ now _ =>
      db.StagedOverdue identity now ∧ db.UnitUsable workUnit ∧
        db.Answered clock workUnit.scopeJson consistency (db.unitFrontier workUnit)
          workUnit.deadlineUnixMs
  | _, commitEntityIdempotent _ record now => db.StagedOverdue record.identityJson now
  | _, retrieveEntities query consistency =>
      db.Answered clock query.scopeJson consistency (db.currentScopeCursor query.scopeJson)
        consistency.deadlineUnixMs ∧
      ∃ row ∈ db.versions, db.PublishedHead row.key row.version ∧
        row.key.scopeJson = query.scopeJson ∧
        textScore search (db.sweepExpiredWorkUnits clock.sweep).db query.text row ≠
          textScore search db query.text row
  | _, _ => False

/-- A retrieval outside of units. -/
def Retrieves : {α : Type} → Operation α → Prop
  | _, retrieveEntities _ _ => True
  | _, _ => False

variable {search : Search} {op : Operation α}

/-- **A call that does not consult what is overdue** answers alike with a sweep before it. -/
theorem alike (hlaw : A.Lawful) (inv : Inv A db) (hissued : op.IssuedAt clock.sweep)
    (hpromised : op.PromisedIn A db) (hno : ¬ op.ConsultsOverdue search db clock) :
    Reply.Alike (op.call search db clock)
      (op.call search (db.sweepExpiredWorkUnits clock.sweep).db clock) := by
  rcases Nat.lt_or_ge clock.sweep (2 ^ 63) with hnow | hnow
  · have h := sweepExpiredWorkUnits_spec inv (sweepExpiredWorkUnits_isOk inv hnow)
    have hsweeps : ∀ call : Db → Reply α, Reply.Alike (sweepThen db clock call)
        (sweepThen (db.sweepExpiredWorkUnits clock.sweep).db clock call) := by
      intro call
      rw [sweepThen_again inv hnow]
      exact .refl _
    cases op with
    | readEntity key consistency => exact hsweeps _
    | readChanges query => exact readChanges_alike (h.alike inv) query
    | retrieveEntities query consistency => exact retrieveEntities_alike inv h search hno
    | readIdempotency scope consistency identity request now =>
      obtain rfl : now = clock.sweep := hissued
      exact readIdempotency_alike inv h hnow hno
    | commitEntity entity => exact hsweeps _
    | commitEntityIdempotent entity record now =>
      obtain rfl : now = clock.sweep := hissued
      exact commitEntityIdempotent_alike inv h hlaw hnow hpromised.1 hpromised.2 hno
    | readEntityInWorkUnit workUnit key consistency => exact hsweeps _
    | readIdempotencyInWorkUnit workUnit consistency identity request now allowReplay =>
      obtain ⟨hunit, htime⟩ := hissued
      obtain rfl : now = clock.sweep := htime
      exact readIdempotencyInWorkUnit_alike inv h hnow hunit hno
    | retrieveEntitiesInWorkUnit workUnit query consistency => exact hsweeps _
    | commitEntityInWorkUnit staged => exact hsweeps _
    | publishWorkUnit publish =>
      show Reply.Alike (Patchouli.publishWorkUnit db clock publish)
        (Patchouli.publishWorkUnit (db.sweepExpiredWorkUnits clock.sweep).db clock publish)
      unfold Patchouli.publishWorkUnit
      rw [sweepThen_again inv hnow]
      exact .refl _
  · rw [sweepExpiredWorkUnits_of_le db hnow]
    exact .refl _

/-- **A keyed call that does** answers otherwise. -/
theorem not_alike (inv : Inv A db) (hissued : op.IssuedAt clock.sweep)
    (hconsults : op.ConsultsOverdue search db clock) (hkeyed : ¬ op.Retrieves) :
    ¬ Reply.Alike (op.call search db clock)
      (op.call search (db.sweepExpiredWorkUnits clock.sweep).db clock) := by
  rintro ⟨houtcome, -⟩
  have hswept : ∀ identity, db.StagedOverdue identity clock.sweep →
      Swept clock.sweep db (db.sweepExpiredWorkUnits clock.sweep).db := fun _ hover =>
    sweepExpiredWorkUnits_spec inv (sweepExpiredWorkUnits_isOk inv hover.1)
  cases op with
  | readIdempotency scope consistency identity request now =>
    obtain rfl : now = clock.sweep := hissued
    obtain ⟨hover, hanswered⟩ := hconsults
    obtain ⟨hold, hnew⟩ :=
      readIdempotency_of_overdue inv (hswept _ hover) hover hanswered request
    cases (hnew.symm.trans houtcome).trans hold
  | commitEntityIdempotent entity record now =>
    obtain rfl : now = clock.sweep := hissued
    obtain ⟨hold, hnew⟩ := commitEntityIdempotent_of_overdue inv (hswept _ hconsults) hconsults
    exact hnew (houtcome.trans hold)
  | readIdempotencyInWorkUnit workUnit consistency identity request now allowReplay =>
    obtain ⟨hunit, htime⟩ := hissued
    obtain rfl : now = clock.sweep := htime
    obtain ⟨hover, husable, hanswered⟩ := hconsults
    obtain ⟨hold, hnew⟩ := readIdempotencyInWorkUnit_of_overdue inv (hswept _ hover) hover.1 hunit
      hover husable hanswered request allowReplay
    cases (hnew.symm.trans houtcome).trans hold
  | retrieveEntities query consistency => exact hkeyed trivial
  | readEntity key consistency => exact hconsults
  | readChanges query => exact hconsults
  | commitEntity entity => exact hconsults
  | readEntityInWorkUnit workUnit key consistency => exact hconsults
  | retrieveEntitiesInWorkUnit workUnit query consistency => exact hconsults
  | commitEntityInWorkUnit staged => exact hconsults
  | publishWorkUnit publish => exact hconsults

end Operation

end Patchouli
