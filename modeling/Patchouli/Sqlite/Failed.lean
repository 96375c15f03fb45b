import Patchouli.Sqlite.Landed

/-!
# What a call that fails leaves behind

A commit that fails stores nothing, with one exception: a closing commit that staged its versions
and then found conflicts reports them, and what it staged stays. A publication that fails leaves the
unit as it was, unless the unit has expired: then nothing is left of it.

## Main definitions

* `Db.Valued` — every active version has its value

## Main results

* `Effects.valued` — calls keep it
* `WorkUnitCommitted.leaves` — what a commit in a unit leaves, where it has not published the unit
* `publishWorkUnit_expired` — what a publication leaves of a unit that has expired
-/

namespace Patchouli

open Db Relation

variable {A : Automerge} {K : Known} {old new db : Db} {key : EntityKey} {clock : Clock}

/-! ### Values -/

/-- Every active version has its value. -/
def Db.Valued (db : Db) : Prop :=
  ∀ r ∈ db.versions, r.state = .active → r.valueJson.isSome

/-- Versions are stored with the value their state requires. -/
theorem Db.Valued.added {versions : List StoredEntityVersion}
    {row : StoredEntityVersion → EntityVersionRow} (h : old.Valued)
    (hstorable : ∀ v ∈ versions, Storable v)
    (hversions : new.versions = old.versions ++ versions.map row)
    (hrow : ∀ v, (row v).state = v.state ∧ (row v).valueJson = v.valueJson) : new.Valued := by
  intro r hr hactive
  rw [hversions] at hr
  rcases List.mem_append.mp hr with hold | hnew
  · exact h r hold hactive
  · obtain ⟨v, hv, rfl⟩ := List.mem_map.mp hnew
    obtain ⟨hstate, hvalue⟩ := hrow v
    rw [hvalue]
    rcases hstorable v hv with ⟨-, hsome⟩ | ⟨hdeleted, -⟩
    · exact hsome
    · rw [← hstate, hactive] at hdeleted
      cases hdeleted

theorem Effect.valued (hlaw : A.Lawful) (inv : Inv A old) (h : Effect A K old new)
    (hold : old.Valued) : new.Valued := by
  cases h with
  | upkeep h => exact fun r hr => hold r (h.rows r hr)
  | commit hformed hadded h =>
    obtain ⟨-, -, -, ⟨recordedAt, hversions⟩, -, -, -, hnew, -⟩ :=
      commitEntityInTransaction_spec hlaw inv.crdt hformed.genuine h
    exact hold.added (fun v hv => (hnew v hv).2) hversions fun _ => ⟨rfl, rfl⟩
  | record _ h =>
    rw [insertIdempotency_eq h]
    exact hold
  | @stage _ u staged recordedAt hunit hid hopen hformed hadded hheads h =>
    have hcrdt : CrdtInv A (old.recordStagedMutation staged) :=
      inv.crdt.congr (fun _ _ h => h) rfl rfl rfl
    obtain ⟨mid, hinsert, hreplace⟩ := Except.bind_eq_ok.mp h
    obtain ⟨⟨_, _, _, heq⟩, -, -, -, -, -, -, hnew, -⟩ :=
      stage_spec hlaw hcrdt hformed.genuine hinsert hreplace
    exact hold.added (fun v hv => (hnew v hv).2) (by rw [heq]; rfl) fun _ => ⟨rfl, rfl⟩
  | stageRecord _ _ _ h =>
    rw [insertWorkUnitIdempotency_eq h]
    exact hold
  | close identity => exact hold
  | resolve hunit hclosing _ _ hgenuine hadded hinsert h =>
    obtain ⟨⟨_, _, _, heq⟩, -, -, -, -, -, -, hnew, -⟩ :=
      stage_spec hlaw inv.crdt hgenuine hinsert h
    exact hold.added (fun v hv => (hnew v hv).2) (by rw [heq]) fun _ => ⟨rfl, rfl⟩
  | @publish _ u recordedAt hunit hclosing h =>
    obtain ⟨mid, -, hpublished, -, -, -, rfl⟩ :=
      finishWorkUnitPublication_spec inv hunit (Or.inr hclosing) h
    intro r hr hactive
    rcases hpublished.from_old r hr with ⟨hkept, -⟩ | ⟨r', hr', -, -, cursor, rfl⟩
    · exact hold r hkept hactive
    · exact hold r' hr' hactive

theorem Effects.valued (hlaw : A.Lawful) (inv : Inv A old) (h : Effects A K old new)
    (hold : old.Valued) : new.Valued := by
  induction h with
  | refl => exact hold
  | tail hbefore hstep ih => exact hstep.valued hlaw (Effects.keeps hlaw inv hbefore).1 ih

/-! ### Commits in a work unit -/

/-- A call that finds its unit open does not join a closing one. -/
theorem Ensured.not_closingAt {swept base : Db} {workUnit : WorkUnit} (inv : StagingInv swept)
    (hswept : Swept clock.sweep old swept) (h : Ensured swept workUnit .opened base) :
    ¬ old.ClosingAt clock workUnit := by
  rintro ⟨u, hu, hid, hclosing, -, -, hsweep, -⟩
  have hthere : u ∈ swept.workUnits := by
    rw [hswept.workUnits_eq]
    refine List.mem_map.mpr ⟨u, hu, ?_⟩
    unfold WorkUnitRow.swept
    rw [if_neg fun hover => absurd hover.2 (Nat.not_le_of_lt hsweep)]
  have hfound := workUnit?_of_mem inv.unitKeys hthere
  rw [hid] at hfound
  cases h with
  | created hnew => rw [hnew] at hfound; cases hfound
  | opened hrow _ _ hstate =>
    rw [hrow, Option.some.injEq] at hfound
    subst hfound
    rw [hclosing] at hstate
    cases hstate

/-- **What a commit in a unit leaves**, where it has not published the unit: the rows there were, or
what it staged too, if it went through and did not find the unit closing. -/
theorem WorkUnitCommitted.leaves (hlaw : A.Lawful) (inv : Inv A old) {entity : WorkUnitCommit}
    {outcome : Except ProviderError WorkUnitCommitOutcome} (hformed : entity.entity.WellFormed A)
    (hscope : entity.workUnit.scopeJson = entity.entity.key.scopeJson)
    (h : WorkUnitCommitted clock entity old outcome new) (hnot : outcome ≠ .ok .published) :
    (∀ r ∈ new.versions, r ∈ old.versions) ∨
      (∃ done, outcome = .ok done ∧ ¬ done.Refused) ∧ ¬ old.ClosingAt clock entity.workUnit ∧
        ∀ r ∈ new.versions,
          r ∈ old.versions ∨ r.workUnitJson = some entity.workUnit.identityJson := by
  let K : Known := Known.anything
  have hstages : ∀ {swept base staged : Db}, Swept clock.sweep old swept →
      Ensured swept entity.workUnit .opened base → StagedIn entity base staged →
      ¬ old.ClosingAt clock entity.workUnit ∧ ∀ r ∈ staged.versions,
        r ∈ old.versions ∨ r.workUnitJson = some entity.workUnit.identityJson := by
    intro swept base staged hswept hensured hstaged
    have hsweeps := Expiries.upkeeps K hswept.expiries
    have hbase : Upkeeps K old base := hsweeps.trans (hensured.upkeeps trivial)
    refine ⟨hensured.not_closingAt (Upkeeps.keeps inv hsweeps).1.staging hswept, fun r hr => ?_⟩
    obtain ⟨recordedAt, _, _, _, _, _, _, _, heq⟩ :=
      hstaged.eq hlaw (Upkeeps.keeps inv hbase).1 hformed hscope
    rw [heq] at hr
    rcases List.mem_append.mp hr with hkept | hadded
    · exact Or.inl (Upkeeps.rows hbase r hkept)
    · obtain ⟨v, -, rfl⟩ := List.mem_map.mp hadded
      exact Or.inr rfl
  cases h with
  | failed h => exact Or.inl (Upkeeps.rows (Expiries.upkeeps K h))
  | refused h _ => exact Or.inl (Upkeeps.rows (Expiries.upkeeps K h))
  | staged hswept hensured hstaged _ =>
    exact Or.inr ⟨⟨_, rfl, by simp [WorkUnitCommitOutcome.Refused]⟩,
      hstages hswept hensured hstaged⟩
  | closed hswept hensured hstaged _ h =>
    cases h with
    | published => exact absurd rfl hnot
    | reported =>
      have hleft := hstages hswept hensured hstaged
      exact Or.inr ⟨⟨_, rfl, by simp [WorkUnitCommitOutcome.Refused]⟩, hleft⟩
  | joined hswept _ _ h =>
    cases h with
    | published => exact absurd rfl hnot
    | reported => exact Or.inl (Upkeeps.rows (Expiries.upkeeps K hswept.expiries))

/-! ### Publications -/

theorem applyResolutions_ne_expired {publish : WorkUnitPublish}
    {all conflicts : List WorkUnitConflict} {outcome : WorkUnitCommitOutcome}
    (h : applyResolutions publish all conflicts db = .ok (.error outcome)) :
    outcome ≠ .expired := by
  induction conflicts generalizing db with
  | nil => cases h
  | cons conflict rest ih =>
    unfold applyResolutions at h
    split at h
    · cases h; rintro ⟨⟩
    · split at h
      · cases h; rintro ⟨⟩
      · split at h
        · cases h; rintro ⟨⟩
        · split at h
          · cases h
          · obtain ⟨recordedAt, -, h⟩ := Except.bind_eq_ok.mp h
            obtain ⟨inserted, -, h⟩ := Except.bind_eq_ok.mp h
            obtain ⟨next, -, h⟩ := Except.bind_eq_ok.mp h
            exact ih h

/-- A unit that a call found expired has nothing staged, and it is not committed. -/
theorem Ensured.expired_left (inv : StagingInv old) (inv' : StagingInv new) {workUnit : WorkUnit}
    (h : Ensured old workUnit .expired new) :
    (∀ r ∈ new.versions, r.workUnitJson ≠ some workUnit.identityJson) ∧
      ¬ new.Committed workUnit.identityJson := by
  cases h with
  | @expired u hrow hstate =>
    obtain ⟨hu, hid⟩ := workUnit?_eq_some hrow
    constructor
    · intro r hr hunit
      obtain ⟨-, ⟨u', hu', hid', hlive⟩, -⟩ := inv'.staged r hr _ hunit
      obtain rfl := inv'.unit_eq hu' hu (hid'.trans hid.symm)
      simp [WorkUnitRow.Live, hstate] at hlive
    · rintro ⟨u', hu', hid', hcommitted⟩
      obtain rfl := inv'.unit_eq hu' hu (hid'.trans hid.symm)
      rw [hstate] at hcommitted
      cases hcommitted
  | @overdue u new hrow hlive hover h =>
    obtain ⟨hu, hid⟩ := workUnit?_eq_some hrow
    obtain ⟨rfl, -⟩ := expireWorkUnit_spec h
    constructor
    · exact fun r hr hunit => of_decide_eq_true (List.mem_filter.mp hr).2 hunit
    · rintro ⟨u', hu', hid', hcommitted⟩
      obtain ⟨u₀, hu₀, rfl⟩ := List.mem_map.mp hu'
      split at hid'
      · rename_i hexpires
        rw [if_pos hexpires] at hcommitted
        cases hcommitted
      · rename_i hnot
        obtain rfl := inv.unit_eq hu₀ hu (hid'.trans hid.symm)
        exact hnot ⟨hid, hlive⟩

/-- **Where a publication finds its unit expired**, nothing is left of what the unit staged, and
nothing of it was published. -/
theorem publishWorkUnit_expired (inv : Inv A db) {publish : WorkUnitPublish}
    (h : (publishWorkUnit db clock publish).outcome = .ok .expired) :
    (∀ r ∈ (publishWorkUnit db clock publish).db.versions,
      r.workUnitJson ≠ some publish.workUnit.identityJson) ∧
      ¬ (publishWorkUnit db clock publish).db.Committed publish.workUnit.identityJson := by
  obtain ⟨swept, hswept, hcall, hdb⟩ := sweepThen_eq_ok inv (Except.mapError_eq_ok.mp h)
  obtain ⟨committed, hbody, hcommitted⟩ := transaction_eq_ok hcall
  obtain ⟨⟨state, base⟩, hensure, hbody⟩ := Except.bind_eq_ok.mp hbody
  have hensured := ensureWorkUnit_ensured hensure
  rw [show (publishWorkUnit db clock publish).db = _ from hdb.trans hcommitted]
  cases state with
  | policyMismatch => simp at hbody
  | committed => simp at hbody
  | expired =>
    simp only [commit_eq_ok, Finished.mk.injEq] at hbody
    obtain ⟨-, rfl⟩ := hbody
    have hsweeps := hswept.expiries.upkeeps Known.anything
    exact hensured.expired_left (Upkeeps.keeps inv hsweeps).1.staging
      (Upkeeps.keeps inv (hsweeps.trans (hensured.upkeeps trivial))).1.staging
  | opened => cases hbody
  | closing =>
    obtain ⟨conflicts, -, hbody⟩ := Except.bind_eq_ok.mp hbody
    split at hbody
    · simp at hbody
    · obtain ⟨applied, happly, hbody⟩ := Except.bind_eq_ok.mp hbody
      cases applied with
      | error early =>
        simp only [rollback_eq_ok, Finished.mk.injEq] at hbody
        exact absurd hbody.1.symm (applyResolutions_ne_expired happly)
      | ok resolved =>
        obtain ⟨recordedAt, -, hbody⟩ := Except.bind_eq_ok.mp hbody
        obtain ⟨new, -, hbody⟩ := Except.bind_eq_ok.mp hbody
        simp at hbody

end Patchouli
