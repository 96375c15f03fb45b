import Patchouli.Sqlite.Calls

/-!
# Reads that are served

A read that is answered with a value was served: the state it was read from met what the session
and the tokens require, the value is what that state has, and the session has now read through its
frontier. One structure says it for every reading call, with the state, the frontier and the value
of the call.

## Main definitions

* `Served` — an answered read

## Main results

* `readEntity_served`, `retrieveEntities_served`, `readIdempotency_served` — at the frontier of the
  scope
* `readEntityInWorkUnit_served`, `retrieveEntitiesInWorkUnit_served`,
  `readIdempotencyInWorkUnit_served` — at the baseline of the unit
-/

namespace Patchouli

open Db

variable {A : Automerge} {α : Type} {db old new : Db} {key : EntityKey} {clock : Clock}
  {scope : String} {consistency : ReadConsistency} {frontier : ℕ} {observation : ReadObservation}

/-! ### Observations -/

/-- What an observation promises: it is of the authority, and of a state that no token and no
session is ahead of. -/
structure Observes (db : Db) (scope : String) (consistency : ReadConsistency) (frontier : ℕ)
    (observation : ReadObservation) : Prop where
  frontier_eq : observation.frontier = frontier
  authority : .authority ∈ consistency.allowedSources
  tokens : ∀ token ∈ consistency.minimumTokens,
    ∃ cursor, db.tokenCursor? scope token = some cursor ∧ cursor ≤ frontier
  sessions : ∀ session ∈ consistency.sessions, db.sessionRequirement scope session ≤ frontier

theorem consistencyObservation_observes {now : ℕ}
    (h : consistencyObservation db now scope consistency frontier = .ok (some observation)) :
    Observes db scope consistency frontier observation := by
  have hfrontier := consistencyObservation_frontier h
  unfold consistencyObservation at h
  split at h
  · cases h
  · split at h
    · simp at h
    · rename_i hauthority
      split at h
      · simp at h
      · rename_i htokens
        split at h
        · simp at h
        · rename_i hsessions
          refine ⟨hfrontier, not_not.mp hauthority, fun token htoken => ?_, fun session hsession => ?_⟩
          · simp only [List.any_eq_true, not_exists, not_and, Bool.not_eq_true] at htokens
            have hno := htokens token htoken
            cases hcursor : db.tokenCursor? scope token with
            | none => simp [hcursor] at hno
            | some cursor => exact ⟨cursor, rfl, by simpa [hcursor] using hno⟩
          · simp only [List.any_eq_true, not_exists, not_and, Bool.not_eq_true] at hsessions
            exact Nat.not_lt.mp (by simpa using hsessions session hsession)

/-- An answered read of `state`, which leaves `new`. -/
structure Served (state : Db) (scope : String) (consistency : ReadConsistency) (frontier : ℕ)
    (observation : ReadObservation) (new : Db) : Prop where
  observes : Observes state scope consistency frontier observation
  db_eq : new = state.advanceReadSessions scope consistency frontier

/-! ### At the frontier of the scope -/

theorem readEntity_served (inv : Inv A db) {value : Option EntitySnapshot}
    (h : (readEntity db clock key consistency).outcome = .ok (.read value observation)) :
    ∃ swept, Swept clock.sweep db swept ∧ value = swept.readEntitySnapshot key ∧
      Served swept key.scopeJson consistency (swept.currentScopeCursor key.scopeJson) observation
        (readEntity db clock key consistency).db := by
  obtain ⟨swept, hswept, hcall, hdb⟩ := sweepThen_eq_ok inv h
  obtain ⟨committed, hbody, hcommitted⟩ := transaction_eq_ok hcall
  obtain ⟨observed, hobserve, hbody⟩ := Except.bind_eq_ok.mp hbody
  cases observed with
  | none => simp at hbody
  | some observed =>
    simp only [commitBeforeDeadline_eq_ok, Finished.mk.injEq, ConsistentRead.read.injEq] at hbody
    obtain ⟨-, ⟨rfl, rfl⟩, rfl⟩ := hbody
    have hobserves := consistencyObservation_observes hobserve
    refine ⟨swept, hswept, rfl, hobserves, ?_⟩
    rw [← hobserves.frontier_eq]
    exact hdb.trans hcommitted

theorem retrieveEntities_served {search : Search} {query : RetrieveQuery} {page : RetrievedPage}
    (h : (retrieveEntities search db clock query consistency).outcome =
      .ok (.read page observation)) :
    page = db.retrieveEntities search query ∧
      Served db query.scopeJson consistency (db.currentScopeCursor query.scopeJson) observation
        (retrieveEntities search db clock query consistency).db := by
  obtain ⟨committed, hbody, hcommitted⟩ := transaction_eq_ok h
  obtain ⟨observed, hobserve, hbody⟩ := Except.bind_eq_ok.mp hbody
  cases observed with
  | none => simp at hbody
  | some observed =>
    simp only [commitBeforeDeadline_eq_ok, Finished.mk.injEq, ConsistentRead.read.injEq] at hbody
    obtain ⟨-, ⟨rfl, rfl⟩, rfl⟩ := hbody
    have hobserves := consistencyObservation_observes hobserve
    refine ⟨rfl, hobserves, ?_⟩
    rw [← hobserves.frontier_eq]
    exact hcommitted

theorem readIdempotency_served {identity : String} {request : Mutation} {now : ℕ}
    {outcome : IdempotencyReadOutcome}
    (h : (readIdempotency db clock scope consistency identity request now).outcome = .ok outcome)
    (havailable : outcome ≠ .unavailable) :
    ∃ observation forgotten, Observes db scope consistency (db.currentScopeCursor scope)
        observation ∧
      readIdempotencyRecord db identity request now = .ok (outcome, forgotten) ∧
      (readIdempotency db clock scope consistency identity request now).db =
        forgotten.advanceReadSessions scope consistency (db.currentScopeCursor scope) := by
  obtain ⟨committed, hbody, hcommitted⟩ := transaction_eq_ok h
  obtain ⟨observed, hobserve, hbody⟩ := Except.bind_eq_ok.mp hbody
  cases observed with
  | none =>
    simp only [rollback_eq_ok, Finished.mk.injEq] at hbody
    exact absurd hbody.1 havailable
  | some observed =>
    obtain ⟨⟨outcome', forgotten⟩, hread, hbody⟩ := Except.bind_eq_ok.mp hbody
    simp only [commitBeforeDeadline_eq_ok, Finished.mk.injEq] at hbody
    obtain ⟨-, rfl, rfl⟩ := hbody
    have hobserves := consistencyObservation_observes hobserve
    refine ⟨observed, forgotten, hobserves, hread, ?_⟩
    rw [← hobserves.frontier_eq]
    exact hcommitted

/-! ### At the baseline of a unit -/

theorem closedOutcome_none {state : StoredWorkUnitState}
    (h : closedOutcome (α := α) state = none) : state = .opened := by
  cases state <;> first | rfl | cases h

theorem closedOutcome_some {state : StoredWorkUnitState} {outcome : WorkUnitOutcome α}
    (h : closedOutcome state = some outcome) (read : ConsistentRead α) : outcome ≠ .opened read := by
  rintro rfl
  cases state <;> simp [closedOutcome] at h

/-- The row of a unit, by its baseline. -/
theorem workUnitBaseline_eq_ok {identity : String} {baseline : ℕ} :
    db.workUnitBaseline identity = .ok baseline ↔
      ∃ row, db.workUnit? identity = some row ∧ row.baselineCursor = baseline := by
  unfold Db.workUnitBaseline
  cases db.workUnit? identity <;> simp

/-- An open unit that a call reads in, with its baseline. -/
structure ReadsIn (db swept base : Db) (clock : Clock) (workUnit : WorkUnit) (row : WorkUnitRow) :
    Prop where
  sweeps : Swept clock.sweep db swept
  ensured : Ensured swept workUnit .opened base
  row_eq : base.workUnit? workUnit.identityJson = some row

/-- The unit of a read is open, and everything up to it was upkeep. -/
theorem ReadsIn.base {K : Known} {swept base : Db} {workUnit : WorkUnit} {row : WorkUnitRow}
    (inv : Inv A db) (h : ReadsIn db swept base clock workUnit row) (hunit : K.unit workUnit) :
    Upkeeps K db base ∧ Inv A base ∧ row ∈ base.workUnits ∧
      row.identityJson = workUnit.identityJson ∧ row.scopeJson = workUnit.scopeJson ∧
      row.state = .opened := by
  have hupkeeps : Upkeeps K db base :=
    (Expiries.upkeeps K h.sweeps.expiries).trans (h.ensured.upkeeps hunit)
  have inv' := (hupkeeps.keeps inv).1
  obtain ⟨hmem, hid⟩ := workUnit?_eq_some h.row_eq
  obtain ⟨u, hu, huid, hscope, hopen, -⟩ := h.ensured.open_unit
  obtain rfl := inv'.staging.unit_eq hmem hu (hid.trans huid.symm)
  exact ⟨hupkeeps, inv', hmem, hid, hscope, hopen⟩

theorem readEntityInWorkUnit_served (inv : Inv A db) {workUnit : WorkUnit}
    {value : Option EntitySnapshot}
    (h : (readEntityInWorkUnit db clock workUnit key consistency).outcome =
      .ok (.opened (.read value observation))) :
    ∃ swept base captured row, ReadsIn db swept base clock workUnit row ∧
      base.captureWorkUnitEntity workUnit.identityJson key = .ok captured ∧
      value = captured.readWorkUnitSnapshot workUnit.identityJson key ∧
      Observes base workUnit.scopeJson consistency row.baselineCursor observation ∧
      (readEntityInWorkUnit db clock workUnit key consistency).db =
        captured.advanceReadSessions workUnit.scopeJson consistency row.baselineCursor := by
  obtain ⟨swept, hswept, hcall, hdb⟩ := sweepThen_eq_ok inv h
  obtain ⟨committed, hbody, hcommitted⟩ := transaction_eq_ok hcall
  obtain ⟨⟨state, base⟩, hensure, hbody⟩ := Except.bind_eq_ok.mp hbody
  have hensured := ensureWorkUnit_ensured hensure
  dsimp only at hbody
  cases hclosed : closedOutcome (α := Option EntitySnapshot) state with
  | some outcome =>
    rw [hclosed] at hbody
    simp only [commitBeforeDeadline_eq_ok, Finished.mk.injEq] at hbody
    exact absurd hbody.2.1.symm (closedOutcome_some hclosed _)
  | none =>
    obtain rfl := closedOutcome_none hclosed
    rw [hclosed] at hbody
    obtain ⟨baseline, hbaseline, hbody⟩ := Except.bind_eq_ok.mp hbody
    obtain ⟨row, hrow, rfl⟩ := workUnitBaseline_eq_ok.mp hbaseline
    obtain ⟨observed, hobserve, hbody⟩ := Except.bind_eq_ok.mp hbody
    cases observed with
    | none => simp at hbody
    | some observed =>
      obtain ⟨captured, hcapture, hbody⟩ := Except.bind_eq_ok.mp hbody
      simp only [commitBeforeDeadline_eq_ok, Finished.mk.injEq, WorkUnitOutcome.opened.injEq,
        ConsistentRead.read.injEq] at hbody
      obtain ⟨-, ⟨rfl, rfl⟩, rfl⟩ := hbody
      exact ⟨swept, base, captured, row, ⟨hswept, hensured, hrow⟩, hcapture, rfl,
        consistencyObservation_observes hobserve, hdb.trans hcommitted⟩

theorem retrieveEntitiesInWorkUnit_served {search : Search} (inv : Inv A db) {workUnit : WorkUnit}
    {query : RetrieveQuery} {page : RetrievedPage}
    (h : (retrieveEntitiesInWorkUnit search db clock workUnit query consistency).outcome =
      .ok (.opened (.read page observation))) :
    ∃ swept base captured row, ReadsIn db swept base clock workUnit row ∧
      (retrieveCandidates search base query fun key version =>
        base.VisibleHead workUnit.identityJson row.baselineCursor key version).1.foldlM
          (retrieveCaptured workUnit.identityJson query.scopeJson) (base, []) =
            .ok (captured, page.entities) ∧
      page.nextCursor = (retrieveCandidates search base query fun key version =>
        base.VisibleHead workUnit.identityJson row.baselineCursor key version).2 ∧
      Observes base workUnit.scopeJson consistency row.baselineCursor observation ∧
      (retrieveEntitiesInWorkUnit search db clock workUnit query consistency).db =
        captured.advanceReadSessions workUnit.scopeJson consistency row.baselineCursor := by
  obtain ⟨swept, hswept, hcall, hdb⟩ := sweepThen_eq_ok inv h
  obtain ⟨committed, hbody, hcommitted⟩ := transaction_eq_ok hcall
  obtain ⟨⟨state, base⟩, hensure, hbody⟩ := Except.bind_eq_ok.mp hbody
  have hensured := ensureWorkUnit_ensured hensure
  dsimp only at hbody
  cases hclosed : closedOutcome (α := RetrievedPage) state with
  | some outcome =>
    rw [hclosed] at hbody
    simp only [commitBeforeDeadline_eq_ok, Finished.mk.injEq] at hbody
    exact absurd hbody.2.1.symm (closedOutcome_some hclosed _)
  | none =>
    obtain rfl := closedOutcome_none hclosed
    rw [hclosed] at hbody
    obtain ⟨baseline, hbaseline, hbody⟩ := Except.bind_eq_ok.mp hbody
    obtain ⟨row, hrow, rfl⟩ := workUnitBaseline_eq_ok.mp hbaseline
    obtain ⟨observed, hobserve, hbody⟩ := Except.bind_eq_ok.mp hbody
    cases observed with
    | none => simp at hbody
    | some observed =>
      obtain ⟨⟨captured, entities⟩, hloop, hbody⟩ := Except.bind_eq_ok.mp hbody
      simp only [commitBeforeDeadline_eq_ok, Finished.mk.injEq, WorkUnitOutcome.opened.injEq,
        ConsistentRead.read.injEq] at hbody
      obtain ⟨-, ⟨rfl, rfl⟩, rfl⟩ := hbody
      exact ⟨swept, base, captured, row, ⟨hswept, hensured, hrow⟩, hloop, rfl,
        consistencyObservation_observes hobserve, hdb.trans hcommitted⟩

theorem readIdempotencyInWorkUnit_served {workUnit : WorkUnit} {identity : String}
    {request : Mutation} {now : ℕ} {allowReplay : Bool} {outcome : IdempotencyReadOutcome}
    (h : (readIdempotencyInWorkUnit db clock workUnit consistency identity request now
      allowReplay).outcome = .ok outcome) (havailable : outcome ≠ .unavailable) :
    ∃ last row observation,
      readWorkUnitIdempotency db workUnit identity request now allowReplay = .ok (outcome, last) ∧
      last.workUnit? workUnit.identityJson = some row ∧
      Observes last workUnit.scopeJson consistency row.baselineCursor observation ∧
      (readIdempotencyInWorkUnit db clock workUnit consistency identity request now
        allowReplay).db =
          last.advanceReadSessions workUnit.scopeJson consistency row.baselineCursor := by
  obtain ⟨committed, hbody, hcommitted⟩ := transaction_eq_ok h
  obtain ⟨⟨outcome', last⟩, hread, hbody⟩ := Except.bind_eq_ok.mp hbody
  obtain ⟨baseline, hbaseline, hbody⟩ := Except.bind_eq_ok.mp hbody
  obtain ⟨row, hrow, rfl⟩ := workUnitBaseline_eq_ok.mp hbaseline
  obtain ⟨observed, hobserve, hbody⟩ := Except.bind_eq_ok.mp hbody
  cases observed with
  | none =>
    simp only [rollback_eq_ok, Finished.mk.injEq] at hbody
    exact absurd hbody.1 havailable
  | some observed =>
    simp only [commitBeforeDeadline_eq_ok, Finished.mk.injEq] at hbody
    obtain ⟨-, rfl, rfl⟩ := hbody
    have hobserves := consistencyObservation_observes hobserve
    refine ⟨last, row, observed, hread, hrow, hobserves, ?_⟩
    rw [← hobserves.frontier_eq]
    exact hcommitted

end Patchouli
