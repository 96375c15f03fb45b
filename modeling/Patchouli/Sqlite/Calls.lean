import Patchouli.Sqlite.Runs
import Patchouli.Sqlite.Retrieve

/-!
# What calls do

Every provider call is some upkeep, and a call that commits, stages, closes or publishes does so
in one transaction after it. For the reading calls that is all there is to say; for each writing
call a lemma lists its outcomes with what happened where it has that outcome.

## Main definitions

* `Db.Swept` — the tables after the sweep of a call
* `StagedIn` — the tables after a mutation was staged in an open unit

## Main results

* `readEntity_upkeeps`, … — the reading calls
* `commitEntity_cases`, `commitEntityIdempotent_cases`, `commitEntityInWorkUnit_cases`,
  `publishWorkUnit_cases` — the writing calls
-/

namespace Patchouli

open Db Relation

variable {A : Automerge} {K : Known} {α : Type} {db old new : Db} {key : EntityKey} {clock : Clock}

/-! ### Transactions -/

theorem transaction_eq_ok {body : Except ProviderError (Finished α)} {value : α}
    (h : (transaction db body).outcome = .ok value) :
    ∃ committed, body = .ok ⟨value, committed⟩ ∧
      (transaction db body).db = committed.getD db := by
  unfold transaction at h ⊢
  split at h
  · rw [Except.ok.injEq] at h
    exact ⟨_, by rw [h], rfl⟩
  · rw [Except.ok.injEq] at h
    exact ⟨_, by rw [h], rfl⟩
  · cases h

theorem transaction_eq_error {body : Except ProviderError (Finished α)} {error : ProviderError}
    (h : (transaction db body).outcome = .error error) :
    body = .error error ∧ (transaction db body).db = db := by
  unfold transaction at h ⊢
  split at h
  · cases h
  · cases h
  · rw [Except.error.injEq] at h
    exact ⟨h ▸ rfl, rfl⟩

/-- A transaction leaves what it committed, or nothing. -/
theorem transaction_db (R : Db → Prop) {body : Except ProviderError (Finished α)} (hold : R db)
    (hnew : ∀ value db', body = .ok ⟨value, some db'⟩ → R db') : R (transaction db body).db := by
  unfold transaction
  split
  · exact hnew _ _ rfl
  · exact hold
  · exact hold

@[simp] theorem rollback_eq_ok {value : α} {finished : Finished α} :
    rollback value = .ok finished ↔ finished = ⟨value, none⟩ := by
  rw [rollback, Except.ok.injEq, eq_comm]

@[simp] theorem commit_eq_ok {value : α} {finished : Finished α} :
    commit db value = .ok finished ↔ finished = ⟨value, some db⟩ := by
  rw [commit, Except.ok.injEq, eq_comm]

theorem commitBeforeDeadline_eq_ok {now : ℕ} {deadline : Option ℕ} {value : α}
    {finished : Finished α} :
    commitBeforeDeadline now deadline db value = .ok finished ↔
      (∀ d ∈ deadline, now < d) ∧ finished = ⟨value, some db⟩ := by
  unfold commitBeforeDeadline
  cases deadline with
  | none => simp
  | some d =>
    simp only [Option.mem_some_iff, forall_eq']
    split
    · rename_i hle
      simp [Nat.not_lt.mpr hle]
    · rename_i hlt
      simp [Nat.lt_of_not_le hlt]

/-! ### Sweeps -/

/-- A unit after a sweep. -/
def WorkUnitRow.swept (now : ℕ) (row : WorkUnitRow) : WorkUnitRow :=
  if row.Live ∧ row.expiresAtUnixMs ≤ now then
    { row with state := .expired, closedAtUnixMs := some now }
  else row

theorem WorkUnitRow.swept_live {now : ℕ} {row : WorkUnitRow} (h : (row.swept now).Live) :
    row.swept now = row ∧ row.Live ∧ now < row.expiresAtUnixMs := by
  unfold swept at h ⊢
  split at h
  · simp [Live] at h
  · rename_i hnot
    exact ⟨if_neg hnot, h, Nat.lt_of_not_le fun hle => hnot ⟨h, hle⟩⟩

/-- The tables after a sweep: what was over has expired, with what it staged. -/
structure Db.Swept (now : ℕ) (old new : Db) : Prop where
  expiries : Expiries now old new
  workUnits_eq : new.workUnits = old.workUnits.map (·.swept now)

theorem Upkeeps.keeps (inv : Inv A old) (h : Upkeeps K old new) : Inv A new ∧ Extends old new := by
  induction h with
  | refl => exact ⟨inv, Extends.refl _⟩
  | tail _ hstep ih =>
    obtain ⟨hinv, hext⟩ := hstep.keeps ih.1
    exact ⟨hinv, ih.2.trans hext⟩

theorem Expiries.keeps {latest : ℕ} (inv : Inv A old) (h : Expiries latest old new) :
    Inv A new ∧ Extends old new :=
  Upkeeps.keeps inv (h.upkeeps ⟨fun _ _ => False, fun _ => False, fun _ => False⟩)

/-- Some units expire, one after the other. -/
theorem foldlM_expireWorkUnit {now : ℕ} {identities : List String} (inv : Inv A old)
    (hnodup : identities.Nodup)
    (hover : ∀ id ∈ identities, ∃ u ∈ old.workUnits, u.identityJson = id ∧ u.Live ∧
      u.expiresAtUnixMs ≤ now)
    (h : identities.foldlM (fun db identity => db.expireWorkUnit identity now) old = .ok new) :
    Expiries now old new ∧ new.workUnits = old.workUnits.map fun u =>
      if u.identityJson ∈ identities ∧ u.Live then
        { u with state := .expired, closedAtUnixMs := some now } else u := by
  induction identities generalizing old with
  | nil =>
    simp only [List.foldlM_nil, Except.pure_eq_ok, Except.ok.injEq] at h
    subst h
    exact ⟨.refl, by simp⟩
  | cons id identities ih =>
    obtain ⟨hnew, hnodup'⟩ := List.nodup_cons.mp hnodup
    rw [List.forall_mem_cons] at hover
    obtain ⟨mid, hmid, hrest⟩ := Except.foldlM_cons_eq_ok.mp h
    obtain ⟨unit, hunit, rfl, hlive, hexpired⟩ := hover.1
    have hstep : Expiry now old mid := .intro hunit hlive hexpired hmid
    have hunits : mid.workUnits = old.workUnits.map fun row =>
        if row.identityJson = unit.identityJson ∧ row.Live then
          { row with state := .expired, closedAtUnixMs := some now } else row := by
      rw [(expireWorkUnit_spec hmid).1]
      rfl
    have hkept : ∀ u ∈ old.workUnits, u.identityJson ∈ identities → u ∈ mid.workUnits := by
      intro u hu hmem
      rw [hunits]
      refine List.mem_map.mpr ⟨u, hu, ?_⟩
      rw [if_neg]
      rintro ⟨hid, -⟩
      exact hnew (hid ▸ hmem)
    obtain ⟨hexpiries, hall⟩ := ih (Expiries.keeps inv (.single hstep)).1 hnodup' (fun k hk => by
      obtain ⟨u, hu, rfl, hrest⟩ := hover.2 k hk
      exact ⟨u, hkept u hu hk, rfl, hrest⟩) hrest
    refine ⟨ReflTransGen.head hstep hexpiries, ?_⟩
    rw [hall, hunits, List.map_map]
    refine List.map_congr_left fun u _ => ?_
    simp only [Function.comp_apply, List.mem_cons]
    by_cases hid : u.identityJson = unit.identityJson
    · by_cases hulive : u.Live
      · have hsame : u.identityJson = unit.identityJson ∧ u.Live := ⟨hid, hulive⟩
        have hover : ¬ ({ u with
            state := .expired, closedAtUnixMs := some now } : WorkUnitRow).Live := by
          simp [WorkUnitRow.Live]
        rw [if_pos hsame, if_neg fun h => hover h.2, if_pos ⟨Or.inl hid, hulive⟩]
      · simp [hulive]
    · simp [hid]

theorem sweepExpiredWorkUnits_spec (inv : Inv A db) {now : ℕ}
    (h : (db.sweepExpiredWorkUnits now).outcome = .ok ()) :
    Swept now db (db.sweepExpiredWorkUnits now).db := by
  obtain ⟨committed, hbody, hdb⟩ := transaction_eq_ok h
  obtain ⟨swept, hexpire, hcommit⟩ := Except.bind_eq_ok.mp hbody
  simp only [commit_eq_ok, Finished.mk.injEq, true_and] at hcommit
  subst hcommit
  obtain ⟨bound, hbound, hfold⟩ := Except.bind_eq_ok.mp hexpire
  obtain ⟨-, hnow⟩ := bindUnsigned_eq_ok.mp hbound
  subst hnow
  rw [Db.sweepExpiredWorkUnits, hdb, Option.getD_some]
  have hnodup : (Table.sorted ((db.workUnits.filter fun row =>
      row.Live ∧ row.expiryAction = .discard ∧ row.expiresAtUnixMs ≤ bound).map
        (·.identityJson))).Nodup :=
    Table.sorted_nodup (inv.staging.unitKeys.sublist (List.filter_sublist.map _))
  have hmem : ∀ id, id ∈ Table.sorted ((db.workUnits.filter fun row =>
      row.Live ∧ row.expiryAction = .discard ∧ row.expiresAtUnixMs ≤ bound).map
        (·.identityJson)) ↔ ∃ u ∈ db.workUnits, u.identityJson = id ∧ u.Live ∧
          u.expiresAtUnixMs ≤ bound := by
    intro id
    simp only [Table.mem_sorted, List.mem_map, List.mem_filter, decide_eq_true_eq]
    constructor
    · rintro ⟨u, ⟨hu, hlive, -, hover⟩, hid⟩
      exact ⟨u, hu, hid, hlive, hover⟩
    · rintro ⟨u, hu, hid, hlive, hover⟩
      exact ⟨u, ⟨hu, hlive, by cases u.expiryAction; trivial, hover⟩, hid⟩
  obtain ⟨hexpiries, hunits⟩ :=
    foldlM_expireWorkUnit inv hnodup (fun id hid => (hmem id).mp hid) hfold
  refine ⟨hexpiries, hunits.trans (List.map_congr_left fun u hu => ?_)⟩
  unfold WorkUnitRow.swept
  by_cases hlive : u.Live
  · by_cases hover : u.expiresAtUnixMs ≤ bound
    · rw [if_pos ⟨(hmem _).mpr ⟨u, hu, rfl, hlive, hover⟩, hlive⟩, if_pos ⟨hlive, hover⟩]
    · rw [if_neg, if_neg fun h => hover h.2]
      rintro ⟨hid, -⟩
      obtain ⟨u', hu', heq, -, hover'⟩ := (hmem _).mp hid
      rw [inv.staging.unit_eq hu' hu heq] at hover'
      exact hover hover'
  · rw [if_neg fun h => hlive h.2, if_neg fun h => hlive h.1]

/-- A call that sweeps fails with its sweep, or goes on from the swept tables. -/
theorem sweepThen_cases (clock : Clock) (inv : Inv A db) (call : Db → Reply α) :
    (∃ error, sweepThen db clock call = ⟨.error error, db⟩) ∨
      ∃ swept, Swept clock.sweep db swept ∧ sweepThen db clock call = call swept := by
  unfold sweepThen
  cases hsweep : db.sweepExpiredWorkUnits clock.sweep with
  | mk outcome swept =>
    cases outcome with
    | ok u =>
      cases u
      have hok : (db.sweepExpiredWorkUnits clock.sweep).outcome = .ok () := by rw [hsweep]
      have := sweepExpiredWorkUnits_spec inv hok
      rw [hsweep] at this
      exact Or.inr ⟨swept, this, rfl⟩
    | error error =>
      have herror : (db.sweepExpiredWorkUnits clock.sweep).outcome = .error error := by rw [hsweep]
      have hdb := (transaction_eq_error herror).2
      have hsame : swept = db := by
        have : (db.sweepExpiredWorkUnits clock.sweep).db = swept := by rw [hsweep]
        rw [← this]
        exact hdb
      exact Or.inl ⟨error, by rw [hsame]⟩

/-- A call that succeeds swept first. -/
theorem sweepThen_eq_ok (inv : Inv A db) {call : Db → Reply α} {value : α}
    (h : (sweepThen db clock call).outcome = .ok value) :
    ∃ swept, Swept clock.sweep db swept ∧ (call swept).outcome = .ok value ∧
      (sweepThen db clock call).db = (call swept).db := by
  rcases sweepThen_cases clock inv call with ⟨error, heq⟩ | ⟨swept, hswept, heq⟩
  · rw [heq] at h
    cases h
  · rw [heq] at h ⊢
    exact ⟨swept, hswept, h, rfl⟩

/-! ### The unit of a call -/

/-- What `ensure_work_unit` finds or does. -/
inductive Ensured (old : Db) (workUnit : WorkUnit) : StoredWorkUnitState → Db → Prop
  | created (hnew : old.workUnit? workUnit.identityJson = none)
    (hlater : workUnit.nowUnixMs < workUnit.expiresAtUnixMs) :
    Ensured old workUnit .opened
      (old.openWorkUnit workUnit workUnit.nowUnixMs workUnit.expiresAtUnixMs)
  | mismatch {row : WorkUnitRow} (hrow : old.workUnit? workUnit.identityJson = some row)
    (hno : row.scopeJson ≠ workUnit.scopeJson ∨ row.policyJson ≠ workUnit.policyJson) :
    Ensured old workUnit .policyMismatch old
  | committed {row : WorkUnitRow} (hrow : old.workUnit? workUnit.identityJson = some row)
    (hstate : row.state = .committed) : Ensured old workUnit .committed old
  | expired {row : WorkUnitRow} (hrow : old.workUnit? workUnit.identityJson = some row)
    (hstate : row.state = .expired) : Ensured old workUnit .expired old
  | overdue {row : WorkUnitRow} {new : Db} (hrow : old.workUnit? workUnit.identityJson = some row)
    (hlive : row.Live) (hover : row.expiresAtUnixMs ≤ workUnit.nowUnixMs)
    (h : old.expireWorkUnit workUnit.identityJson workUnit.nowUnixMs = .ok new) :
    Ensured old workUnit .expired new
  | opened {row : WorkUnitRow} (hrow : old.workUnit? workUnit.identityJson = some row)
    (hscope : row.scopeJson = workUnit.scopeJson) (hpolicy : row.policyJson = workUnit.policyJson)
    (hstate : row.state = .opened) (hnow : workUnit.nowUnixMs < row.expiresAtUnixMs) :
    Ensured old workUnit .opened old
  | closing {row : WorkUnitRow} (hrow : old.workUnit? workUnit.identityJson = some row)
    (hscope : row.scopeJson = workUnit.scopeJson) (hpolicy : row.policyJson = workUnit.policyJson)
    (hstate : row.state = .closing) (hnow : workUnit.nowUnixMs < row.expiresAtUnixMs) :
    Ensured old workUnit .closing old

theorem ensureWorkUnit_ensured {workUnit : WorkUnit} {state : StoredWorkUnitState}
    (h : old.ensureWorkUnit workUnit = .ok (state, new)) : Ensured old workUnit state new := by
  unfold Db.ensureWorkUnit at h
  split at h
  · rename_i hnone
    obtain ⟨now, hnow, h⟩ := Except.bind_eq_ok.mp h
    obtain ⟨expires, hexpires, h⟩ := Except.bind_eq_ok.mp h
    obtain ⟨-, rfl⟩ := sqliteTime_eq_ok.mp hnow
    obtain ⟨-, rfl⟩ := sqliteTime_eq_ok.mp hexpires
    split at h
    · cases h
    · rename_i hlater
      simp only [Except.pure_eq_ok, Except.ok.injEq, Prod.mk.injEq] at h
      obtain ⟨rfl, rfl⟩ := h
      exact .created hnone (Nat.lt_of_not_le hlater)
  · rename_i row hrow
    split at h
    · rename_i hno
      simp only [Except.ok.injEq, Prod.mk.injEq] at h
      obtain ⟨rfl, rfl⟩ := h
      refine .mismatch hrow ?_
      rcases hno with hno | hno | hno
      · exact Or.inl hno
      · exact Or.inr hno
      · exact absurd (by cases row.expiryAction; cases workUnit.expiryAction; rfl) hno
    · rename_i hsame
      simp only [not_or, not_not] at hsame
      obtain ⟨hscope, hpolicy, -⟩ := hsame
      split at h
      · rename_i hstate
        simp only [Except.ok.injEq, Prod.mk.injEq] at h
        obtain ⟨rfl, rfl⟩ := h
        exact .committed hrow hstate
      · rename_i hstate
        simp only [Except.ok.injEq, Prod.mk.injEq] at h
        obtain ⟨rfl, rfl⟩ := h
        exact .expired hrow hstate
      · rename_i hstate
        split at h
        · rename_i hnow
          simp only [Except.ok.injEq, Prod.mk.injEq] at h
          obtain ⟨rfl, rfl⟩ := h
          exact .closing hrow hscope hpolicy hstate hnow
        · rename_i hover
          obtain ⟨mid, hexpire, h⟩ := Except.bind_eq_ok.mp h
          simp only [Except.pure_eq_ok, Except.ok.injEq, Prod.mk.injEq] at h
          obtain ⟨rfl, rfl⟩ := h
          exact .overdue hrow (Or.inr hstate) (Nat.le_of_not_lt hover) hexpire
      · rename_i hstate
        split at h
        · rename_i hnow
          simp only [Except.ok.injEq, Prod.mk.injEq] at h
          obtain ⟨rfl, rfl⟩ := h
          exact .opened hrow hscope hpolicy hstate hnow
        · rename_i hover
          obtain ⟨mid, hexpire, h⟩ := Except.bind_eq_ok.mp h
          simp only [Except.pure_eq_ok, Except.ok.injEq, Prod.mk.injEq] at h
          obtain ⟨rfl, rfl⟩ := h
          exact .overdue hrow (Or.inl hstate) (Nat.le_of_not_lt hover) hexpire

namespace Ensured

variable {workUnit : WorkUnit} {state : StoredWorkUnitState}

/-- Unless the unit is open, it may have expired at most. -/
theorem expiries (h : Ensured old workUnit state new) (hstate : state ≠ .opened) :
    Expiries workUnit.nowUnixMs old new := by
  cases h with
  | created => exact absurd rfl hstate
  | mismatch => exact .refl
  | committed => exact .refl
  | expired => exact .refl
  | overdue hrow hlive hover h =>
    obtain ⟨hmem, hid⟩ := workUnit?_eq_some hrow
    exact .single (.intro hmem hlive hover (by rw [hid]; exact h))
  | opened => exact .refl
  | closing => exact .refl

theorem upkeeps (h : Ensured old workUnit state new) (hunit : K.unit workUnit) :
    Upkeeps K old new := by
  by_cases hstate : state = .opened
  · subst hstate
    cases h with
    | created hnew => exact .single (.openUnit old workUnit _ _ hunit hnew)
    | opened => exact .refl
  · exact (h.expiries hstate).upkeeps K

/-- An open unit of a call is the one it names. -/
theorem open_unit (h : Ensured old workUnit .opened new) : ∃ u ∈ new.workUnits,
    u.identityJson = workUnit.identityJson ∧ u.scopeJson = workUnit.scopeJson ∧
      u.state = .opened ∧ workUnit.nowUnixMs < u.expiresAtUnixMs := by
  cases h with
  | created hnew hlater =>
    exact ⟨_, List.mem_append_right _ (List.mem_singleton.mpr rfl), rfl, rfl, rfl, hlater⟩
  | opened hrow hscope hpolicy hstate hnow =>
    obtain ⟨hmem, hid⟩ := workUnit?_eq_some hrow
    exact ⟨_, hmem, hid, hscope, hstate, hnow⟩

end Ensured

/-! ### Reading calls -/

theorem deleteOverdueIdempotency_eq_ok {now : ℕ} :
    old.deleteOverdueIdempotency now = .ok new ↔ now < 2 ^ 63 ∧ new = { old with
      idempotency := old.idempotency.filter (now < ·.expiresAtUnixMs)
      unitIdempotency := old.unitIdempotency.filter (now < ·.record.expiresAtUnixMs) } := by
  simp only [deleteOverdueIdempotency, Except.bind_eq_ok, bindUnsigned_eq_ok, Except.pure_eq_ok,
    Except.ok.injEq]
  constructor
  · rintro ⟨_, ⟨hlt, rfl⟩, rfl⟩
    exact ⟨hlt, rfl⟩
  · rintro ⟨hlt, rfl⟩
    exact ⟨_, ⟨hlt, rfl⟩, rfl⟩

theorem deleteOverdueIdempotency_upkeep {now : ℕ}
    (h : old.deleteOverdueIdempotency now = .ok new) : Upkeep K old new := by
  obtain ⟨-, rfl⟩ := deleteOverdueIdempotency_eq_ok.mp h
  exact .forget old now

/-- An observation is made at the frontier it was asked for. -/
theorem consistencyObservation_frontier {now frontier : ℕ} {scope : String}
    {consistency : ReadConsistency} {observation : ReadObservation}
    (h : consistencyObservation db now scope consistency frontier = .ok (some observation)) :
    observation.frontier = frontier := by
  unfold consistencyObservation at h
  split at h
  · cases h
  · split at h
    · simp at h
    · split at h
      · simp at h
      · split at h
        · simp at h
        · simp only [Except.ok.injEq, Option.some.injEq] at h
          rw [← h]

/-- After the sweep, if it succeeds. -/
theorem sweepThen_upkeeps (inv : Inv A db) {call : Db → Reply α}
    (hcall : ∀ swept, Inv A swept → Upkeeps K swept (call swept).db) :
    Upkeeps K db (sweepThen db clock call).db := by
  rcases sweepThen_cases clock inv call with ⟨error, heq⟩ | ⟨swept, hswept, heq⟩
  · rw [heq]
  · rw [heq]
    exact (hswept.expiries.upkeeps K).trans (hcall swept (hswept.expiries.keeps inv).1)

theorem readEntity_upkeeps (inv : Inv A db) (clock : Clock) (key : EntityKey)
    (consistency : ReadConsistency) : Upkeeps K db (readEntity db clock key consistency).db := by
  refine sweepThen_upkeeps inv fun swept _ => transaction_db (Upkeeps K swept) .refl ?_
  intro value db' hbody
  obtain ⟨observation, hobserve, hbody⟩ := Except.bind_eq_ok.mp hbody
  cases observation with
  | none =>
    simp at hbody
  | some observation =>
    simp only [commitBeforeDeadline_eq_ok, Finished.mk.injEq, Option.some.injEq] at hbody
    obtain ⟨-, -, rfl⟩ := hbody
    exact .single (.sessions swept _ _ _ (consistencyObservation_frontier hobserve).le)

/-- The baseline of a unit is not past the frontier of its scope. -/
theorem workUnitBaseline_le (inv : Inv A db) {identity scope : String} {baseline : ℕ}
    (hscope : ∀ u ∈ db.workUnits, u.identityJson = identity → u.scopeJson = scope)
    (h : db.workUnitBaseline identity = .ok baseline) : baseline ≤ db.currentScopeCursor scope := by
  unfold Db.workUnitBaseline at h
  split at h
  · rename_i row hrow
    obtain ⟨hmem, hid⟩ := workUnit?_eq_some hrow
    rw [Except.ok.injEq] at h
    rw [← h, ← hscope row hmem hid]
    exact inv.baseline.cutoff row hmem
  · cases h

/-- The unit of a call keeps its scope. -/
theorem Ensured.scope_eq {workUnit : WorkUnit} {state : StoredWorkUnitState}
    (h : Ensured old workUnit state new)
    (hscope : ∀ u ∈ old.workUnits, u.identityJson = workUnit.identityJson →
      u.scopeJson = workUnit.scopeJson) :
    ∀ u ∈ new.workUnits, u.identityJson = workUnit.identityJson →
      u.scopeJson = workUnit.scopeJson := by
  cases h with
  | created =>
    intro u hu hid
    rcases List.mem_append.mp hu with hold | hnew
    · exact hscope u hold hid
    · rw [List.mem_singleton.mp hnew]
  | overdue _ _ _ h =>
    obtain ⟨rfl, -⟩ := expireWorkUnit_spec h
    intro u hu hid
    obtain ⟨u', hu', rfl⟩ := List.mem_map.mp hu
    by_cases hexpired : u'.identityJson = workUnit.identityJson ∧ u'.Live
    · rw [if_pos hexpired]
      exact hscope u' hu' hexpired.1
    · rw [if_neg hexpired] at hid ⊢
      exact hscope u' hu' hid
  | mismatch => exact hscope
  | committed => exact hscope
  | expired => exact hscope
  | opened => exact hscope
  | closing => exact hscope

/-- An open unit of a call has the scope of the call. -/
theorem Ensured.open_scope (inv : StagingInv new) {workUnit : WorkUnit}
    (h : Ensured old workUnit .opened new) :
    ∀ u ∈ new.workUnits, u.identityJson = workUnit.identityJson →
      u.scopeJson = workUnit.scopeJson := by
  obtain ⟨u, hu, hid, hscope, -⟩ := h.open_unit
  intro u' hu' hid'
  rw [inv.unit_eq hu' hu (hid'.trans hid.symm), hscope]

/-- A captured entity adds to two tables. -/
theorem captureWorkUnitEntity_eq {unit : String}
    (h : old.captureWorkUnitEntity unit key = .ok new) :
    ∃ unitEntities unitBaseVersions, new = { old with unitEntities, unitBaseVersions } := by
  unfold Db.captureWorkUnitEntity at h
  split at h
  · rw [Except.ok.injEq] at h
    exact ⟨_, _, h.symm⟩
  · split at h
    · cases h
    · rw [Except.ok.injEq] at h
      exact ⟨_, _, h.symm⟩

theorem readEntityInWorkUnit_upkeeps (inv : Inv A db) (clock : Clock) (workUnit : WorkUnit)
    (consistency : ReadConsistency) (hunit : K.unit workUnit)
    (hscope : workUnit.scopeJson = key.scopeJson) :
    Upkeeps K db (readEntityInWorkUnit db clock workUnit key consistency).db := by
  refine sweepThen_upkeeps inv fun swept hswept => transaction_db (Upkeeps K swept) .refl ?_
  intro value db' hbody
  obtain ⟨⟨state, mid⟩, hensure, hbody⟩ := Except.bind_eq_ok.mp hbody
  have hensured := ensureWorkUnit_ensured hensure
  have hmid := hensured.upkeeps hunit
  dsimp only at hbody
  cases hclosed : closedOutcome (α := Option EntitySnapshot) state with
  | some outcome =>
    rw [hclosed] at hbody
    simp only [commitBeforeDeadline_eq_ok, Finished.mk.injEq, Option.some.injEq] at hbody
    exact hbody.2.2 ▸ hmid
  | none =>
    obtain rfl : state = .opened := by cases state <;> first | rfl | cases hclosed
    rw [hclosed] at hbody
    have hinv := (hmid.keeps hswept).1
    obtain ⟨u, hu, hid, huscope, hstate, -⟩ := hensured.open_unit
    obtain ⟨baseline, hbaseline, hbody⟩ := Except.bind_eq_ok.mp hbody
    obtain ⟨observation, -, hbody⟩ := Except.bind_eq_ok.mp hbody
    cases observation with
    | none => simp at hbody
    | some observation =>
      obtain ⟨captured, hcapture, hbody⟩ := Except.bind_eq_ok.mp hbody
      simp only [commitBeforeDeadline_eq_ok, Finished.mk.injEq, Option.some.injEq] at hbody
      obtain ⟨-, -, rfl⟩ := hbody
      obtain ⟨entities, bases, heq⟩ := captureWorkUnitEntity_eq hcapture
      refine (hmid.tail ?_).tail (.sessions captured _ _ _ ?_)
      · exact .capture hu hstate (huscope.trans hscope) (by rw [hid]; exact hcapture)
      · rw [heq]
        exact workUnitBaseline_le hinv (hensured.open_scope hinv.staging) hbaseline

/-- Looking a record up forgets the overdue ones. -/
theorem readIdempotencyRecord_forgets {identity : String} {request : Mutation} {now : ℕ}
    {outcome : IdempotencyReadOutcome}
    (h : readIdempotencyRecord old identity request now = .ok (outcome, new)) :
    old.deleteOverdueIdempotency now = .ok new := by
  obtain ⟨mid, hdelete, h⟩ := Except.bind_eq_ok.mp h
  split at h
  · simp only [Except.pure_eq_ok, Except.ok.injEq, Prod.mk.injEq] at h
    exact h.2 ▸ hdelete
  · simp only [Except.pure_eq_ok, Except.ok.injEq, Prod.mk.injEq] at h
    exact h.2 ▸ hdelete

theorem readIdempotency_upkeeps (db : Db) (clock : Clock) (scope : String)
    (consistency : ReadConsistency) (identity : String) (request : Mutation) (now : ℕ) :
    Upkeeps K db (readIdempotency db clock scope consistency identity request now).db := by
  refine transaction_db (Upkeeps K db) .refl ?_
  intro value db' hbody
  obtain ⟨observation, hobserve, hbody⟩ := Except.bind_eq_ok.mp hbody
  cases observation with
  | none => simp at hbody
  | some observation =>
    obtain ⟨⟨outcome, mid⟩, hread, hbody⟩ := Except.bind_eq_ok.mp hbody
    simp only [commitBeforeDeadline_eq_ok, Finished.mk.injEq, Option.some.injEq] at hbody
    obtain ⟨-, -, rfl⟩ := hbody
    have hforget := readIdempotencyRecord_forgets hread
    refine .head (deleteOverdueIdempotency_upkeep hforget) (.single (.sessions mid _ _ _ ?_))
    rw [consistencyObservation_frontier hobserve, (deleteOverdueIdempotency_eq_ok.mp hforget).2]
    exact le_rfl

theorem findWorkUnitIdempotency_forgets {unit identity : String} {request : Mutation} {now : ℕ}
    {allowReplay : Bool} {outcome : IdempotencyReadOutcome}
    (h : findWorkUnitIdempotency old unit identity request now allowReplay = .ok (outcome, new)) :
    old.deleteOverdueIdempotency now = .ok new := by
  obtain ⟨mid, hdelete, h⟩ := Except.bind_eq_ok.mp h
  split at h
  · simp only [Except.pure_eq_ok, Except.ok.injEq, Prod.mk.injEq] at h
    exact h.2 ▸ hdelete
  · split at h
    · simp only [Except.pure_eq_ok, Except.ok.injEq, Prod.mk.injEq] at h
      exact h.2 ▸ hdelete
    · split at h
      · simp only [Except.pure_eq_ok, Except.ok.injEq, Prod.mk.injEq] at h
        exact h.2 ▸ hdelete
      · simp only [Except.pure_eq_ok, Except.ok.injEq, Prod.mk.injEq] at h
        exact h.2 ▸ hdelete

/-- A lookup in a work unit ensures the unit, and may forget overdue records. -/
theorem readWorkUnitIdempotency_ensured {workUnit : WorkUnit} {identity : String}
    {request : Mutation} {now : ℕ} {allowReplay : Bool} {outcome : IdempotencyReadOutcome}
    (h : readWorkUnitIdempotency old workUnit identity request now allowReplay =
      .ok (outcome, new)) : ∃ state mid, Ensured old workUnit state mid ∧
        (new = mid ∨ mid.deleteOverdueIdempotency now = .ok new) := by
  obtain ⟨⟨state, mid⟩, hensure, h⟩ := Except.bind_eq_ok.mp h
  refine ⟨state, mid, ensureWorkUnit_ensured hensure, ?_⟩
  cases state with
  | policyMismatch =>
    simp only [Except.pure_eq_ok, Except.ok.injEq, Prod.mk.injEq] at h
    exact Or.inl h.2.symm
  | expired =>
    simp only [Except.pure_eq_ok, Except.ok.injEq, Prod.mk.injEq] at h
    exact Or.inl h.2.symm
  | opened => exact Or.inr (findWorkUnitIdempotency_forgets h)
  | closing => exact Or.inr (findWorkUnitIdempotency_forgets h)
  | committed => exact Or.inr (findWorkUnitIdempotency_forgets h)

theorem readIdempotencyInWorkUnit_upkeeps (inv : Inv A db) (clock : Clock) (workUnit : WorkUnit)
    (consistency : ReadConsistency) (identity : String) (request : Mutation) (now : ℕ)
    (allowReplay : Bool) (hunit : K.unit workUnit)
    (hscope : ∀ u ∈ db.workUnits, u.identityJson = workUnit.identityJson →
      u.scopeJson = workUnit.scopeJson) :
    Upkeeps K db (readIdempotencyInWorkUnit db clock workUnit consistency identity request now
      allowReplay).db := by
  refine transaction_db (Upkeeps K db) .refl ?_
  intro value db' hbody
  obtain ⟨⟨outcome, last⟩, hread, hbody⟩ := Except.bind_eq_ok.mp hbody
  obtain ⟨baseline, hbaseline, hbody⟩ := Except.bind_eq_ok.mp hbody
  obtain ⟨observation, hobserve, hbody⟩ := Except.bind_eq_ok.mp hbody
  cases observation with
  | none => simp at hbody
  | some observation =>
    simp only [commitBeforeDeadline_eq_ok, Finished.mk.injEq, Option.some.injEq] at hbody
    obtain ⟨-, -, rfl⟩ := hbody
    obtain ⟨state, mid, hensured, hlast⟩ := readWorkUnitIdempotency_ensured hread
    have hlastUpkeeps : Upkeeps K db last := by
      rcases hlast with rfl | hforget
      · exact hensured.upkeeps hunit
      · exact (hensured.upkeeps hunit).tail (deleteOverdueIdempotency_upkeep hforget)
    have hlastScope : ∀ u ∈ last.workUnits, u.identityJson = workUnit.identityJson →
        u.scopeJson = workUnit.scopeJson := by
      rcases hlast with rfl | hforget
      · exact hensured.scope_eq hscope
      · rw [(deleteOverdueIdempotency_eq_ok.mp hforget).2]
        exact hensured.scope_eq hscope
    refine hlastUpkeeps.tail (.sessions last _ _ _ ?_)
    rw [consistencyObservation_frontier hobserve]
    exact workUnitBaseline_le (hlastUpkeeps.keeps inv).1 hlastScope hbaseline

theorem readChanges_upkeeps (db : Db) (query : ChangeQuery)
    (hretention : K.retention query.retainedAfterUnixMs) :
    Upkeeps K db (readChanges db query).db := by
  unfold readChanges
  split
  · exact .refl
  · rename_i bound hbound
    obtain ⟨-, rfl⟩ := bindUnsigned_eq_ok.mp hbound
    refine .head (.note db _ hretention)
      (.single (.prune _ _ hretention fun change hchange hover => ?_))
    exact prunedThrough_recordRetention_covers db _ hchange hover

theorem retrieveEntities_upkeeps (search : Search) (db : Db) (clock : Clock) (query : RetrieveQuery)
    (consistency : ReadConsistency) :
    Upkeeps K db (retrieveEntities search db clock query consistency).db := by
  refine transaction_db (Upkeeps K db) .refl ?_
  intro value db' hbody
  obtain ⟨observation, hobserve, hbody⟩ := Except.bind_eq_ok.mp hbody
  cases observation with
  | none => simp at hbody
  | some observation =>
    simp only [commitBeforeDeadline_eq_ok, Finished.mk.injEq, Option.some.injEq] at hbody
    obtain ⟨-, -, rfl⟩ := hbody
    exact .single (.sessions db _ _ _ (consistencyObservation_frontier hobserve).le)

/-- The loop of a retrieval captures entities of its scope. -/
theorem foldlM_retrieveCaptured {unit : WorkUnitRow} (hunit : unit ∈ old.workUnits)
    (hopen : unit.state = .opened) {candidates : List RetrievalCandidate}
    {found result : List RetrievedEntity}
    (h : candidates.foldlM (retrieveCaptured unit.identityJson unit.scopeJson) (old, found) =
      .ok (new, result)) : Upkeeps K old new ∧
        ∃ unitEntities unitBaseVersions, new = { old with unitEntities, unitBaseVersions } := by
  induction candidates generalizing old found with
  | nil =>
    simp only [List.foldlM_nil, Except.pure_eq_ok, Except.ok.injEq, Prod.mk.injEq] at h
    exact h.1 ▸ ⟨.refl, _, _, rfl⟩
  | cons candidate candidates ih =>
    obtain ⟨⟨mid, found'⟩, hturn, hrest⟩ := Except.foldlM_cons_eq_ok.mp h
    obtain ⟨captured, hcapture, hturn⟩ := Except.bind_eq_ok.mp hturn
    obtain rfl : captured = mid := by
      split at hturn
      · simp only [Except.pure_eq_ok, Except.ok.injEq, Prod.mk.injEq] at hturn
        exact hturn.1
      · simp only [Except.pure_eq_ok, Except.ok.injEq, Prod.mk.injEq] at hturn
        exact hturn.1
    obtain ⟨entities, bases, heq⟩ := captureWorkUnitEntity_eq hcapture
    have hunit' : unit ∈ captured.workUnits := by
      rw [heq]
      exact hunit
    obtain ⟨hupkeeps, entities', bases', heq'⟩ := ih hunit' hrest
    exact ⟨.head (.capture hunit hopen rfl hcapture) hupkeeps, _, _, by rw [heq', heq]⟩

theorem retrieveEntitiesInWorkUnit_upkeeps (search : Search) (inv : Inv A db) (clock : Clock)
    (workUnit : WorkUnit) (query : RetrieveQuery) (consistency : ReadConsistency)
    (hunit : K.unit workUnit) (hscope : workUnit.scopeJson = query.scopeJson) :
    Upkeeps K db (retrieveEntitiesInWorkUnit search db clock workUnit query consistency).db := by
  refine sweepThen_upkeeps inv fun swept hswept => transaction_db (Upkeeps K swept) .refl ?_
  intro value db' hbody
  obtain ⟨⟨state, mid⟩, hensure, hbody⟩ := Except.bind_eq_ok.mp hbody
  have hensured := ensureWorkUnit_ensured hensure
  have hmid := hensured.upkeeps hunit
  dsimp only at hbody
  cases hclosed : closedOutcome (α := RetrievedPage) state with
  | some outcome =>
    rw [hclosed] at hbody
    simp only [commitBeforeDeadline_eq_ok, Finished.mk.injEq, Option.some.injEq] at hbody
    exact hbody.2.2 ▸ hmid
  | none =>
    obtain rfl : state = .opened := by cases state <;> first | rfl | cases hclosed
    rw [hclosed] at hbody
    have hinv := (hmid.keeps hswept).1
    obtain ⟨u, hu, hid, huscope, hstate, -⟩ := hensured.open_unit
    obtain ⟨baseline, hbaseline, hbody⟩ := Except.bind_eq_ok.mp hbody
    obtain ⟨observation, -, hbody⟩ := Except.bind_eq_ok.mp hbody
    cases observation with
    | none => simp at hbody
    | some observation =>
      obtain ⟨⟨captured, entities⟩, hloop, hbody⟩ := Except.bind_eq_ok.mp hbody
      simp only [commitBeforeDeadline_eq_ok, Finished.mk.injEq, Option.some.injEq] at hbody
      obtain ⟨-, -, rfl⟩ := hbody
      rw [← hid, ← hscope, ← huscope] at hloop
      obtain ⟨hupkeeps, unitEntities, bases, heq⟩ := foldlM_retrieveCaptured hu hstate hloop
      refine (hmid.trans hupkeeps).tail (.sessions captured _ _ _ ?_)
      rw [heq]
      exact workUnitBaseline_le hinv (hensured.open_scope hinv.staging) hbaseline

/-! ### Immediate commits -/

/-- A commit that went through. -/
theorem commitEntity_committed (inv : Inv A db) {entity : EntityCommit}
    (h : (commitEntity db clock entity).outcome = .ok .committed) :
    ∃ swept, Swept clock.sweep db swept ∧ swept.commitEntityInTransaction entity =
      .ok (.committed, (commitEntity db clock entity).db) := by
  obtain ⟨swept, hswept, hcall, hdb⟩ := sweepThen_eq_ok inv h
  obtain ⟨committed, hbody, hcommitted⟩ := transaction_eq_ok hcall
  refine ⟨swept, hswept, ?_⟩
  rw [show (commitEntity db clock entity).db = _ from hdb.trans hcommitted]
  split at hbody
  · cases hbody
  · obtain ⟨⟨outcome, db'⟩, hcommit, hbody⟩ := Except.bind_eq_ok.mp hbody
    cases outcome with
    | committed =>
      simp only [commitBeforeDeadline_eq_ok, Finished.mk.injEq, true_and] at hbody
      rw [hbody.2]
      exact hcommit
    | conflict currentHeads => simp at hbody

/-- Any other outcome leaves nothing but the sweep. -/
theorem commitEntity_expiries (inv : Inv A db) {entity : EntityCommit}
    (h : (commitEntity db clock entity).outcome ≠ .ok .committed) :
    Expiries clock.sweep db (commitEntity db clock entity).db := by
  unfold commitEntity at h ⊢
  rcases sweepThen_cases clock inv _ with ⟨error, heq⟩ | ⟨swept, hswept, heq⟩
  · rw [heq]
  · rw [heq] at h ⊢
    refine transaction_db (Expiries clock.sweep db) hswept.expiries
      fun value db' hbody => absurd ?_ h
    rw [hbody]
    split at hbody
    · cases hbody
    · obtain ⟨⟨outcome, db''⟩, -, hbody⟩ := Except.bind_eq_ok.mp hbody
      cases outcome with
      | committed =>
        simp only [commitBeforeDeadline_eq_ok, Finished.mk.injEq] at hbody
        rw [hbody.2.1]
        rfl
      | conflict currentHeads => simp at hbody

/-- A commit with a record that went through. -/
theorem commitEntityIdempotent_committed {entity : EntityCommit} {record : IdempotencyRecord}
    {now : ℕ} (h : (commitEntityIdempotent db clock entity record now).outcome = .ok .committed) :
    ∃ forgotten next, db.deleteOverdueIdempotency now = .ok forgotten ∧
      forgotten.idempotency? record.identityJson = none ∧
      forgotten.unitIdempotency? record.identityJson = none ∧
      forgotten.commitEntityInTransaction entity = .ok (.committed, next) ∧
      next.insertIdempotency record =
        .ok (commitEntityIdempotent db clock entity record now).db := by
  obtain ⟨committed, hbody, hdb⟩ := transaction_eq_ok h
  obtain ⟨forgotten, hforget, hbody⟩ := Except.bind_eq_ok.mp hbody
  refine ⟨forgotten, ?_⟩
  rw [show (commitEntityIdempotent db clock entity record now).db = _ from hdb]
  split at hbody
  · simp only [rollback_eq_ok, Finished.mk.injEq] at hbody
    have := hbody.1
    split at this <;> cases this
  · rename_i hnone
    split at hbody
    · simp at hbody
    · rename_i hstaged
      obtain ⟨⟨outcome, next⟩, hcommit, hbody⟩ := Except.bind_eq_ok.mp hbody
      cases outcome with
      | conflict currentHeads => simp at hbody
      | committed =>
        obtain ⟨final, hinsert, hbody⟩ := Except.bind_eq_ok.mp hbody
        simp only [commitBeforeDeadline_eq_ok, Finished.mk.injEq, true_and] at hbody
        rw [hbody.2]
        exact ⟨next, hforget, hnone, by simpa using hstaged, hcommit, hinsert⟩

/-- Any other outcome leaves nothing. -/
theorem commitEntityIdempotent_db {entity : EntityCommit} {record : IdempotencyRecord} {now : ℕ}
    (h : (commitEntityIdempotent db clock entity record now).outcome ≠ .ok .committed) :
    (commitEntityIdempotent db clock entity record now).db = db := by
  unfold commitEntityIdempotent at h ⊢
  refine transaction_db (· = db) rfl fun value db' hbody => absurd ?_ h
  rw [hbody]
  obtain ⟨forgotten, -, hbody⟩ := Except.bind_eq_ok.mp hbody
  split at hbody
  · simp at hbody
  · split at hbody
    · simp at hbody
    · obtain ⟨⟨outcome, next⟩, -, hbody⟩ := Except.bind_eq_ok.mp hbody
      cases outcome with
      | conflict currentHeads => simp at hbody
      | committed =>
        obtain ⟨final, -, hbody⟩ := Except.bind_eq_ok.mp hbody
        simp only [commitBeforeDeadline_eq_ok, Finished.mk.injEq] at hbody
        rw [hbody.2.1]
        rfl

/-! ### Commits in a work unit -/

/-- The tables after a commit in an open unit staged its mutation, and its record. -/
inductive StagedIn (entity : WorkUnitCommit) (old new : Db) : Prop
  | intro {unit : WorkUnitRow} {captured staged : Db} {recordedAt : ℕ}
    (hunit : unit ∈ old.workUnits) (hid : entity.workUnit.identityJson = unit.identityJson)
    (hscope : unit.scopeJson = entity.workUnit.scopeJson) (hopen : unit.state = .opened)
    (hcapture : old.captureWorkUnitEntity unit.identityJson entity.entity.key = .ok captured)
    (hheads : captured.workUnitHeads unit.identityJson entity.entity.key =
      Table.sorted entity.entity.expectedHeads)
    (hstage : (captured.recordStagedMutation entity).stageMutation entity recordedAt = .ok staged)
    (hrecord : staged.stageIdempotency entity = .ok (none, new)) : StagedIn entity old new

/-- The end of a closing call. -/
inductive ClosedBy (entity : WorkUnitCommit) (old : Db) : WorkUnitCommitOutcome → Db → Prop
  | published {new : Db} {recordedAt : ℕ}
    (hnone : old.publicationConflicts entity.workUnit.identityJson = .ok [])
    (h : old.finishWorkUnitPublication entity.workUnit.identityJson recordedAt = .ok new) :
    ClosedBy entity old .published new
  | reported {conflicts : List WorkUnitConflict}
    (h : old.publicationConflicts entity.workUnit.identityJson = .ok conflicts)
    (hne : conflicts ≠ []) : ClosedBy entity old (.publicationConflict conflicts) old

/-- Outcomes of a call that left nothing of its mutation. -/
def WorkUnitCommitOutcome.Refused (outcome : WorkUnitCommitOutcome) : Prop :=
  outcome ≠ .staged ∧ outcome ≠ .published ∧ ∀ conflicts, outcome ≠ .publicationConflict conflicts

/-- What a commit in a work unit did, by its outcome. -/
inductive WorkUnitCommitted (clock : Clock) (entity : WorkUnitCommit) (old : Db) :
    Except ProviderError WorkUnitCommitOutcome → Db → Prop
  | failed {new : Db} {error : ProviderError} (h : Expiries clock.sweep old new) :
    WorkUnitCommitted clock entity old (.error error) new
  | refused {new : Db} {outcome : WorkUnitCommitOutcome}
    (h : Expiries (max clock.sweep entity.workUnit.nowUnixMs) old new) (hrefused : outcome.Refused) :
    WorkUnitCommitted clock entity old (.ok outcome) new
  | staged {swept base new : Db} (hswept : Swept clock.sweep old swept)
    (hensured : Ensured swept entity.workUnit .opened base) (hstaged : StagedIn entity base new)
    (hclose : entity.close = false) : WorkUnitCommitted clock entity old (.ok .staged) new
  | closed {swept base staged new : Db} {outcome : WorkUnitCommitOutcome}
    (hswept : Swept clock.sweep old swept)
    (hensured : Ensured swept entity.workUnit .opened base) (hstaged : StagedIn entity base staged)
    (hclose : entity.close = true)
    (h : ClosedBy entity (staged.markClosing entity.workUnit.identityJson) outcome new) :
    WorkUnitCommitted clock entity old (.ok outcome) new
  | joined {swept new : Db} {outcome : WorkUnitCommitOutcome}
    (hswept : Swept clock.sweep old swept)
    (hensured : Ensured swept entity.workUnit .closing swept) (hclose : entity.close = true)
    (h : ClosedBy entity swept outcome new) :
    WorkUnitCommitted clock entity old (.ok outcome) new

theorem publishOrReport_closedBy {entity : WorkUnitCommit}
    {finished : Finished WorkUnitCommitOutcome}
    (h : publishOrReport clock entity old = .ok finished) :
    ∃ new, finished.committed = some new ∧ ClosedBy entity old finished.value new := by
  obtain ⟨conflicts, hconflicts, h⟩ := Except.bind_eq_ok.mp h
  split at h
  · rename_i hnil
    subst hnil
    obtain ⟨recordedAt, -, h⟩ := Except.bind_eq_ok.mp h
    obtain ⟨new, hfinish, h⟩ := Except.bind_eq_ok.mp h
    obtain ⟨-, rfl⟩ := commitBeforeDeadline_eq_ok.mp h
    exact ⟨new, rfl, .published hconflicts hfinish⟩
  · rename_i hne
    obtain ⟨-, rfl⟩ := commitBeforeDeadline_eq_ok.mp h
    exact ⟨old, rfl, .reported hconflicts hne⟩

/-- An early end of `stage_idempotency` is a replay or a conflict. -/
theorem stageIdempotency_refused {entity : WorkUnitCommit} {outcome : WorkUnitCommitOutcome}
    (h : old.stageIdempotency entity = .ok (some outcome, new)) : outcome.Refused := by
  unfold Db.stageIdempotency at h
  split at h
  · cases h
  · obtain ⟨⟨found, db'⟩, -, h⟩ := Except.bind_eq_ok.mp h
    cases found with
    | missing => cases h
    | unavailable => cases h
    | replayed result =>
      simp only [Except.pure_eq_ok, Except.ok.injEq, Prod.mk.injEq] at h
      split at h
      · cases h.1
      · obtain ⟨⟨rfl⟩, -⟩ := h
        simp [WorkUnitCommitOutcome.Refused]
    | conflict =>
      simp only [Except.pure_eq_ok, Except.ok.injEq, Prod.mk.injEq, Option.some.injEq] at h
      rw [← h.1]
      simp [WorkUnitCommitOutcome.Refused]

/-- **What a commit in a work unit did.** -/
theorem commitEntityInWorkUnit_cases (inv : Inv A db) (clock : Clock) (entity : WorkUnitCommit) :
    WorkUnitCommitted clock entity db (commitEntityInWorkUnit db clock entity).outcome
      (commitEntityInWorkUnit db clock entity).db := by
  unfold commitEntityInWorkUnit
  rcases sweepThen_cases clock inv _ with ⟨error, heq⟩ | ⟨swept, hswept, heq⟩
  · rw [heq]
    exact .failed .refl
  rw [heq]
  generalize hbody : (if entity.entity.headVersions = [] then _ else _ :
    Except ProviderError (Finished WorkUnitCommitOutcome)) = body
  cases body with
  | error error => exact .failed hswept.expiries
  | ok finished =>
    obtain ⟨outcome, committed⟩ := finished
    have hsweep := hswept.expiries.mono (le_max_left clock.sweep entity.workUnit.nowUnixMs)
    have hquiet : ∀ {base : Db}, Expiries entity.workUnit.nowUnixMs swept base → outcome.Refused →
        (committed = none ∨ committed = some base) →
        WorkUnitCommitted clock entity db
          (transaction swept (.ok ⟨outcome, committed⟩)).outcome
          (transaction swept (.ok ⟨outcome, committed⟩)).db := by
      rintro base hbase hrefused (rfl | rfl)
      · exact .refused hsweep hrefused
      · exact .refused (hsweep.trans (hbase.mono (le_max_right _ _))) hrefused
    split at hbody
    · cases hbody
    · obtain ⟨⟨state, base⟩, hensure, hbody⟩ := Except.bind_eq_ok.mp hbody
      have hensured := ensureWorkUnit_ensured hensure
      cases state with
      | policyMismatch =>
        simp only [commitBeforeDeadline_eq_ok, Finished.mk.injEq] at hbody
        obtain ⟨-, rfl, rfl⟩ := hbody
        exact hquiet (hensured.expiries (by simp)) (by simp [WorkUnitCommitOutcome.Refused])
          (Or.inr rfl)
      | committed =>
        simp only [commitBeforeDeadline_eq_ok, Finished.mk.injEq] at hbody
        obtain ⟨-, rfl, rfl⟩ := hbody
        exact hquiet (hensured.expiries (by simp)) (by simp [WorkUnitCommitOutcome.Refused])
          (Or.inr rfl)
      | expired =>
        simp only [commitBeforeDeadline_eq_ok, Finished.mk.injEq] at hbody
        obtain ⟨-, rfl, rfl⟩ := hbody
        exact hquiet (hensured.expiries (by simp)) (by simp [WorkUnitCommitOutcome.Refused])
          (Or.inr rfl)
      | closing =>
        obtain rfl : swept = base := by cases hensured; rfl
        dsimp only at hbody
        split at hbody
        · rename_i hclose
          obtain ⟨new, hnew, hclosed⟩ := publishOrReport_closedBy hbody
          simp only at hnew hclosed
          subst hnew
          exact .joined hswept hensured hclose hclosed
        · simp only [commitBeforeDeadline_eq_ok, Finished.mk.injEq] at hbody
          obtain ⟨-, rfl, rfl⟩ := hbody
          exact hquiet .refl (by simp [WorkUnitCommitOutcome.Refused]) (Or.inr rfl)
      | opened =>
        obtain ⟨u, hu, hid, hscope, hopen, -⟩ := hensured.open_unit
        obtain ⟨captured, hcapture, hbody⟩ := Except.bind_eq_ok.mp hbody
        dsimp only at hbody
        split at hbody
        · simp only [rollback_eq_ok, Finished.mk.injEq] at hbody
          obtain ⟨rfl, rfl⟩ := hbody
          exact .refused hsweep (by simp [WorkUnitCommitOutcome.Refused])
        · rename_i hheads
          obtain ⟨recordedAt, -, hbody⟩ := Except.bind_eq_ok.mp hbody
          obtain ⟨staged, hstage, hbody⟩ := Except.bind_eq_ok.mp hbody
          obtain ⟨⟨early, recorded⟩, hrecord, hbody⟩ := Except.bind_eq_ok.mp hbody
          cases early with
          | some early =>
            simp only [rollback_eq_ok, Finished.mk.injEq] at hbody
            obtain ⟨rfl, rfl⟩ := hbody
            exact .refused hsweep (stageIdempotency_refused hrecord)
          | none =>
            have hstagedIn : StagedIn entity base recorded :=
              .intro hu hid.symm hscope hopen (by rw [hid]; exact hcapture)
                (by rw [hid]; exact not_not.mp hheads) hstage hrecord
            dsimp only at hbody
            split at hbody
            · rename_i hclose
              obtain ⟨new, hnew, hclosed⟩ := publishOrReport_closedBy hbody
              simp only at hnew hclosed
              subst hnew
              exact .closed hswept hensured hstagedIn hclose hclosed
            · rename_i hclose
              simp only [commitBeforeDeadline_eq_ok, Finished.mk.injEq] at hbody
              obtain ⟨-, rfl, rfl⟩ := hbody
              exact .staged hswept hensured hstagedIn (by simpa using hclose)

/-! ### Publications -/

/-- What a publication with resolutions did, by its outcome. -/
inductive WorkUnitPublished (clock : Clock) (publish : WorkUnitPublish) (old : Db) :
    Except ProviderError WorkUnitCommitOutcome → Db → Prop
  | refused {new : Db} {outcome : Except ProviderError WorkUnitCommitOutcome}
    (h : Expiries (max clock.sweep publish.workUnit.nowUnixMs) old new)
    (hrefused : outcome ≠ .ok .published) :
    WorkUnitPublished clock publish old outcome new
  | published {swept resolved new : Db} {conflicts : List WorkUnitConflict} {recordedAt : ℕ}
    (hswept : Swept clock.sweep old swept)
    (hensured : Ensured swept publish.workUnit .closing swept)
    (hconflicts : swept.publicationConflicts publish.workUnit.identityJson = .ok conflicts)
    (hlength : conflicts.length = publish.resolutions.length)
    (happly : applyResolutions publish conflicts conflicts swept = .ok (.ok resolved))
    (hfinish : resolved.finishWorkUnitPublication publish.workUnit.identityJson recordedAt =
      .ok new) :
    WorkUnitPublished clock publish old (.ok .published) new

/-- A loop over resolutions that ends early neither publishes nor stages. -/
theorem applyResolutions_early {publish : WorkUnitPublish} {all conflicts : List WorkUnitConflict}
    {outcome : WorkUnitCommitOutcome}
    (h : applyResolutions publish all conflicts db = .ok (.error outcome)) :
    outcome ≠ .published ∧ outcome ≠ .staged := by
  induction conflicts generalizing db with
  | nil => cases h
  | cons conflict rest ih =>
    unfold applyResolutions at h
    split at h
    · cases h
      simp
    · split at h
      · cases h
        simp
      · split at h
        · cases h
          simp
        · split at h
          · cases h
          · obtain ⟨recordedAt, -, h⟩ := Except.bind_eq_ok.mp h
            obtain ⟨inserted, -, h⟩ := Except.bind_eq_ok.mp h
            obtain ⟨replaced, -, h⟩ := Except.bind_eq_ok.mp h
            exact ih h

/-- **What a publication did.** -/
theorem publishWorkUnit_cases (inv : Inv A db) (clock : Clock) (publish : WorkUnitPublish) :
    WorkUnitPublished clock publish db (publishWorkUnit db clock publish).outcome
      (publishWorkUnit db clock publish).db := by
  unfold publishWorkUnit
  dsimp only
  rcases sweepThen_cases clock inv _ with ⟨error, heq⟩ | ⟨swept, hswept, heq⟩
  · rw [heq]
    exact .refused .refl (by simp [Except.mapError])
  rw [heq]
  generalize hbody : (swept.ensureWorkUnit publish.workUnit >>= _ :
    Except ProviderError (Finished WorkUnitCommitOutcome)) = body
  cases body with
  | error error =>
    exact .refused (hswept.expiries.mono (le_max_left _ _)) (by simp [transaction, Except.mapError])
  | ok finished =>
    obtain ⟨outcome, committed⟩ := finished
    have hsweep := hswept.expiries.mono (le_max_left clock.sweep publish.workUnit.nowUnixMs)
    have hquiet : ∀ {base : Db}, Expiries publish.workUnit.nowUnixMs swept base →
        outcome ≠ .published →
        (committed = none ∨ committed = some base) →
        WorkUnitPublished clock publish db
          ((transaction swept (.ok ⟨outcome, committed⟩)).outcome.mapError publicationFailed)
          (transaction swept (.ok ⟨outcome, committed⟩)).db := by
      rintro base hbase hrefused (rfl | rfl)
      · exact .refused hsweep (by simpa [transaction, Except.mapError] using hrefused)
      · exact .refused (hsweep.trans (hbase.mono (le_max_right _ _)))
          (by simpa [transaction, Except.mapError] using hrefused)
    obtain ⟨⟨state, base⟩, hensure, hbody⟩ := Except.bind_eq_ok.mp hbody
    have hensured := ensureWorkUnit_ensured hensure
    cases state with
    | policyMismatch =>
      simp only [commit_eq_ok, Finished.mk.injEq] at hbody
      obtain ⟨rfl, rfl⟩ := hbody
      exact hquiet (hensured.expiries (by simp)) (by simp) (Or.inr rfl)
    | committed =>
      simp only [commit_eq_ok, Finished.mk.injEq] at hbody
      obtain ⟨rfl, rfl⟩ := hbody
      exact hquiet (hensured.expiries (by simp)) (by simp) (Or.inr rfl)
    | expired =>
      simp only [commit_eq_ok, Finished.mk.injEq] at hbody
      obtain ⟨rfl, rfl⟩ := hbody
      exact hquiet (hensured.expiries (by simp)) (by simp) (Or.inr rfl)
    | opened => cases hbody
    | closing =>
      obtain rfl : swept = base := by cases hensured; rfl
      obtain ⟨conflicts, hconflicts, hbody⟩ := Except.bind_eq_ok.mp hbody
      split at hbody
      · simp only [rollback_eq_ok, Finished.mk.injEq] at hbody
        obtain ⟨rfl, rfl⟩ := hbody
        exact hquiet .refl (by simp) (Or.inl rfl)
      · rename_i hlength
        obtain ⟨applied, happly, hbody⟩ := Except.bind_eq_ok.mp hbody
        cases applied with
        | error early =>
          simp only [rollback_eq_ok, Finished.mk.injEq] at hbody
          obtain ⟨rfl, rfl⟩ := hbody
          exact hquiet .refl (applyResolutions_early happly).1 (Or.inl rfl)
        | ok resolved =>
          obtain ⟨recordedAt, -, hbody⟩ := Except.bind_eq_ok.mp hbody
          obtain ⟨new, hfinish, hbody⟩ := Except.bind_eq_ok.mp hbody
          simp only [commit_eq_ok, Finished.mk.injEq] at hbody
          obtain ⟨rfl, rfl⟩ := hbody
          exact .published hswept hensured hconflicts (not_not.mp hlength) happly hfinish

/-! ### Staged records -/

/-- What `stage_idempotency` did where it did not end the call. -/
inductive RecordStaged (entity : WorkUnitCommit) (old : Db) : Db → Prop
  | unkeyed (hnone : entity.idempotency = none) : RecordStaged entity old old
  | known {record known : IdempotencyRecord} {new : Db} (hrecord : entity.idempotency = some record)
    (hclose : entity.close = true)
    (hforget : old.deleteOverdueIdempotency entity.workUnit.nowUnixMs = .ok new)
    (hknown : new.idempotency? record.identityJson = some known ∨
      new.idempotency? record.identityJson = none ∧
        new.unitIdempotency? record.identityJson = some ⟨entity.workUnit.identityJson, known⟩)
    (hsame : known.requestJson = record.requestJson) : RecordStaged entity old new
  | stored {record : IdempotencyRecord} {forgotten new : Db}
    (hrecord : entity.idempotency = some record)
    (hforget : old.deleteOverdueIdempotency entity.workUnit.nowUnixMs = .ok forgotten)
    (hfree : forgotten.idempotency? record.identityJson = none)
    (hinsert : forgotten.insertWorkUnitIdempotency entity.workUnit.identityJson record = .ok new) :
    RecordStaged entity old new

theorem stageIdempotency_none {entity : WorkUnitCommit}
    (h : old.stageIdempotency entity = .ok (none, new)) : RecordStaged entity old new := by
  unfold Db.stageIdempotency at h
  split at h
  · rename_i hnone
    simp only [Except.ok.injEq, Prod.mk.injEq, true_and] at h
    exact h ▸ .unkeyed hnone
  · rename_i record hrecord
    obtain ⟨⟨found, last⟩, hstore, h⟩ := Except.bind_eq_ok.mp h
    obtain ⟨forgotten, hforget, hstore⟩ := Except.bind_eq_ok.mp hstore
    cases found with
    | conflict => simp at h
    | unavailable => cases h
    | replayed result =>
      simp only [Except.pure_eq_ok, Except.ok.injEq, Prod.mk.injEq, ite_eq_left_iff,
        Bool.not_eq_true, reduceCtorEq, imp_false, Bool.not_eq_false] at h
      obtain ⟨hclose, rfl⟩ := h
      split at hstore
      · rename_i known hknown
        simp only [Except.pure_eq_ok, Except.ok.injEq, Prod.mk.injEq] at hstore
        obtain ⟨hfound, rfl⟩ := hstore
        split at hfound
        · rename_i hsame
          exact .known hrecord hclose hforget (Or.inl hknown) hsame
        · cases hfound
      · rename_i hnone
        split at hstore
        · rename_i staged hstaged
          simp only [Except.pure_eq_ok, Except.ok.injEq, Prod.mk.injEq] at hstore
          obtain ⟨hfound, rfl⟩ := hstore
          split at hfound
          · rename_i hsame
            refine .known hrecord hclose hforget (Or.inr ⟨hnone, ?_⟩) hsame.2
            rw [hstaged, ← hsame.1]
          · cases hfound
        · obtain ⟨inserted, -, hstore⟩ := Except.bind_eq_ok.mp hstore
          simp at hstore
    | missing =>
      simp only [Except.pure_eq_ok, Except.ok.injEq, Prod.mk.injEq, true_and] at h
      subst h
      split at hstore
      · simp only [Except.pure_eq_ok, Except.ok.injEq, Prod.mk.injEq] at hstore
        have := hstore.1
        split at this <;> cases this
      · rename_i hnone
        split at hstore
        · simp only [Except.pure_eq_ok, Except.ok.injEq, Prod.mk.injEq] at hstore
          have := hstore.1
          split at this <;> cases this
        · obtain ⟨inserted, hinsert, hstore⟩ := Except.bind_eq_ok.mp hstore
          simp only [Except.pure_eq_ok, Except.ok.injEq, Prod.mk.injEq, true_and] at hstore
          exact .stored hrecord hforget hnone (hstore ▸ hinsert)

theorem insertWorkUnitIdempotency_eq {unit : String} {record : IdempotencyRecord}
    (h : old.insertWorkUnitIdempotency unit record = .ok new) :
    new = { old with unitIdempotency := old.unitIdempotency ++ [⟨unit, record⟩] } := by
  simp only [insertWorkUnitIdempotency, Except.bind_eq_ok, require_eq_ok, Except.pure_eq_ok,
    Except.ok.injEq] at h
  obtain ⟨_, -, _, -, _, -, rfl⟩ := h
  rfl

theorem insertIdempotency_eq {record : IdempotencyRecord}
    (h : old.insertIdempotency record = .ok new) :
    new = { old with idempotency := old.idempotency ++ [record] } := by
  simp only [insertIdempotency, Except.bind_eq_ok, require_eq_ok, Except.pure_eq_ok,
    Except.ok.injEq] at h
  obtain ⟨_, -, _, -, rfl⟩ := h
  rfl

/-- Only the tables of records change. -/
theorem RecordStaged.eq {entity : WorkUnitCommit} (h : RecordStaged entity old new) :
    ∃ idempotency unitIdempotency, new = { old with idempotency, unitIdempotency } := by
  cases h with
  | unkeyed => exact ⟨_, _, rfl⟩
  | known _ _ hforget => exact ⟨_, _, (deleteOverdueIdempotency_eq_ok.mp hforget).2⟩
  | stored _ hforget _ hinsert =>
    rw [(deleteOverdueIdempotency_eq_ok.mp hforget).2] at hinsert
    have heq := insertWorkUnitIdempotency_eq hinsert
    exact ⟨_, _, heq⟩

/-! ### The effects of the writing calls -/

section Effects

/-- The tables after a mutation was staged. -/
theorem StagedIn.eq (hlaw : A.Lawful) (inv : Inv A old) {entity : WorkUnitCommit}
    (hformed : entity.entity.WellFormed A)
    (hscope : entity.workUnit.scopeJson = entity.entity.key.scopeJson)
    (h : StagedIn entity old new) :
    ∃ recordedAt unitEntities unitBaseVersions crdtChanges crdtParents crdtHeads idempotency
      unitIdempotency, new = { old with
        versions := old.versions ++ entity.entity.newVersions.map
          (insertedRow entity.entity.key (some entity.workUnit.identityJson) recordedAt)
        unitHeads := (old.unitHeads.filter fun head =>
            ¬ (head.workUnitJson = entity.workUnit.identityJson ∧
              head.key = entity.entity.key)) ++
          (Table.sorted entity.entity.headVersions).map fun version =>
            ⟨entity.workUnit.identityJson, entity.entity.key, version⟩
        unitEntities, unitBaseVersions, crdtChanges, crdtParents, crdtHeads, idempotency
        unitIdempotency } := by
  obtain ⟨hunit, hid, huscope, hopen, hcapture, hheads, hstage, hrecord⟩ := h
  rename_i unit captured staged recordedAt
  have hinv := (inv.capture hunit (huscope.trans hscope) hcapture).1
  have hcrdt : CrdtInv A (captured.recordStagedMutation entity) :=
    hinv.crdt.congr (fun _ _ h => h) rfl rfl rfl
  obtain ⟨mid, hinsert, hreplace⟩ := Except.bind_eq_ok.mp hstage
  obtain ⟨⟨crdtChanges, crdtParents, crdtHeads, heq⟩, -⟩ :=
    stage_spec hlaw hcrdt hformed.genuine hinsert hreplace
  obtain ⟨unitEntities, unitBaseVersions, rfl⟩ := captureWorkUnitEntity_eq hcapture
  obtain ⟨idempotency, unitIdempotency, rfl⟩ := (stageIdempotency_none hrecord).eq
  exact ⟨recordedAt, _, _, _, _, _, idempotency, unitIdempotency, by rw [heq]; rfl⟩

theorem StagedIn.effects (hlaw : A.Lawful) (inv : Inv A old) {entity : WorkUnitCommit}
    (hformed : entity.entity.WellFormed A)
    (hadded : ∀ v ∈ entity.entity.newVersions, K.version entity.entity.key v)
    (hscope : entity.workUnit.scopeJson = entity.entity.key.scopeJson)
    (h : StagedIn entity old new) : Effects A K old new := by
  obtain ⟨hunit, hid, huscope, hopen, hcapture, hheads, hstage, hrecord⟩ := h
  rename_i unit captured staged recordedAt
  have hcaptured : Upkeep K old captured := .capture hunit hopen (huscope.trans hscope) hcapture
  have hinv := (hcaptured.keeps inv).1
  have hmem : unit ∈ captured.workUnits := by
    obtain ⟨_, _, rfl⟩ := captureWorkUnitEntity_eq hcapture
    exact hunit
  have hstep : Effect A K captured staged :=
    .stage hmem hid hopen hformed hadded hheads hstage
  have hcrdt : CrdtInv A (captured.recordStagedMutation entity) :=
    hinv.crdt.congr (fun _ _ h => h) rfl rfl rfl
  obtain ⟨mid, hinsert, hreplace⟩ := Except.bind_eq_ok.mp hstage
  obtain ⟨⟨_, _, _, heq⟩, -⟩ := stage_spec hlaw hcrdt hformed.genuine hinsert hreplace
  have hmem' : unit ∈ staged.workUnits := by
    rw [heq]
    exact hmem
  refine .head (.upkeep hcaptured) (.head hstep ?_)
  cases stageIdempotency_none hrecord with
  | unkeyed => exact .refl
  | known _ _ hforget => exact .single (.upkeep (deleteOverdueIdempotency_upkeep hforget))
  | stored _ hforget hfree hinsert =>
    refine .head (.upkeep (deleteOverdueIdempotency_upkeep hforget)) (.single ?_)
    obtain ⟨-, rfl⟩ := deleteOverdueIdempotency_eq_ok.mp hforget
    rw [hid] at hinsert
    exact .stageRecord hmem' (Or.inl hopen) hfree hinsert

/-- The unit of a closing call. -/
theorem StagedIn.closing_unit (hlaw : A.Lawful) (inv : Inv A old) {entity : WorkUnitCommit}
    (hformed : entity.entity.WellFormed A)
    (hscope : entity.workUnit.scopeJson = entity.entity.key.scopeJson)
    (h : StagedIn entity old new) :
    ∃ u ∈ (new.markClosing entity.workUnit.identityJson).workUnits,
      u.identityJson = entity.workUnit.identityJson ∧ u.state = .closing := by
  obtain ⟨recordedAt, _, _, _, _, _, _, _, heq⟩ := h.eq hlaw inv hformed hscope
  obtain ⟨hunit, hid, huscope, hopen, -, -, -, -⟩ := h
  rename_i unit _ _ _
  refine ⟨{ unit with state := .closing }, ?_, hid.symm, rfl⟩
  rw [heq]
  refine List.mem_map.mpr ⟨unit, hunit, ?_⟩
  rw [if_pos ⟨hid.symm, hopen⟩]

theorem ClosedBy.effects {entity : WorkUnitCommit} {outcome : WorkUnitCommitOutcome}
    (hunit : ∃ u ∈ old.workUnits, u.identityJson = entity.workUnit.identityJson ∧
      u.state = .closing) (h : ClosedBy entity old outcome new) : Effects A K old new := by
  obtain ⟨u, hu, hid, hclosing⟩ := hunit
  cases h with
  | published _ h =>
    rw [← hid] at h
    exact .single (.publish hu hclosing h)
  | reported => exact .refl

theorem Ensured.closing_unit {workUnit : WorkUnit} (h : Ensured old workUnit .closing new) :
    ∃ u ∈ new.workUnits, u.identityJson = workUnit.identityJson ∧ u.state = .closing := by
  cases h with
  | closing hrow _ _ hstate _ =>
    obtain ⟨hmem, hid⟩ := workUnit?_eq_some hrow
    exact ⟨_, hmem, hid, hstate⟩

/-- **The effects of a commit in a work unit.** -/
theorem WorkUnitCommitted.effects (hlaw : A.Lawful) (inv : Inv A old) {entity : WorkUnitCommit}
    {outcome : Except ProviderError WorkUnitCommitOutcome} (hunit : K.unit entity.workUnit)
    (hformed : entity.entity.WellFormed A)
    (hadded : ∀ v ∈ entity.entity.newVersions, K.version entity.entity.key v)
    (hscope : entity.workUnit.scopeJson = entity.entity.key.scopeJson)
    (h : WorkUnitCommitted clock entity old outcome new) : Effects A K old new := by
  cases h with
  | failed h => exact (Expiries.upkeeps K h).effects
  | refused h => exact (Expiries.upkeeps K h).effects
  | staged hswept hensured hstaged =>
    have hbase : Upkeeps K old _ := (hswept.expiries.upkeeps K).trans (hensured.upkeeps hunit)
    exact hbase.effects.trans
      (hstaged.effects hlaw (hbase.keeps inv).1 hformed hadded hscope)
  | closed hswept hensured hstaged _ h =>
    have hbase : Upkeeps K old _ := (hswept.expiries.upkeeps K).trans (hensured.upkeeps hunit)
    have hinv := (hbase.keeps inv).1
    refine hbase.effects.trans ((hstaged.effects hlaw hinv hformed hadded hscope).trans ?_)
    exact .head (.close _ _) (h.effects (hstaged.closing_unit hlaw hinv hformed hscope))
  | joined hswept hensured _ h =>
    exact (hswept.expiries.upkeeps K).effects.trans (h.effects hensured.closing_unit)

end Effects

end Patchouli
