import Patchouli.Sqlite.Alike

/-!
# Overdue units

A unit whose deadline has passed stays in the tables, with what it staged, until a call sweeps or
names it. A sweep succeeds at every time that SQLite holds, it leaves nothing overdue behind, and
what is published is the same before and after it. Another sweep at the same time does nothing.

What an overdue unit leaves behind most visibly is the records of idempotency it has staged: every
keyed call looks them up, whatever became of their unit.

## Main definitions

* `WorkUnitRow.Overdue` — the deadline has passed, and the unit has not expired
* `Db.StagedOverdue` — an overdue unit has staged a record for an identity

## Main results

* `sweepExpiredWorkUnits_isOk`, `Db.Swept.again` — sweeps succeed, and one is enough
* `Db.Swept.staged_current` — what is staged after a sweep belongs to units that are not overdue
* `Db.Swept.unitIdempotency?_eq`, `Db.Swept.unitIdempotency?_of_overdue` — the lookups
-/

namespace Patchouli

open Db

variable {A : Automerge} {old new db : Db} {now : ℕ}

/-! ### Sweeping -/

/-- A unit whose deadline has passed, and which is not expired yet. -/
def WorkUnitRow.Overdue (now : ℕ) (row : WorkUnitRow) : Prop :=
  row.Live ∧ row.expiresAtUnixMs ≤ now

instance (now : ℕ) (row : WorkUnitRow) : Decidable (row.Overdue now) :=
  inferInstanceAs (Decidable (row.Live ∧ row.expiresAtUnixMs ≤ now))

/-- A base version is published, and so no unit has staged it. -/
theorem Db.Inv.base_not_staged (inv : Inv A db) {base : WorkUnitBaseVersionRow}
    (hbase : base ∈ db.unitBaseVersions) (unit : String) :
    ¬ db.StagedBy unit base.key base.version := by
  obtain ⟨e, he, hunit, hkey⟩ := inv.baseline.entities base hbase
  obtain ⟨u, hu, hid, -⟩ := inv.staging.entityUnits e he
  have hrow : ⟨e.workUnitJson, e.key, base.version, base.isHead⟩ ∈ db.unitBaseVersions := by
    rw [hunit, hkey]
    exact hbase
  obtain ⟨⟨r, hr, hrkey, hrname, hnone, -⟩, -⟩ :=
    (inv.baseline.base e he u hu hid base.version base.isHead).mp hrow
  rw [← hkey]
  exact inv.not_stagedBy_published ⟨r, hr, hrkey, hrname, hnone⟩

theorem expireWorkUnit_isOk (hnow : now < 2 ^ 63) {unit : String}
    (hfree : ∀ base ∈ db.unitBaseVersions, ¬ db.StagedBy unit base.key base.version) :
    ∃ new, db.expireWorkUnit unit now = .ok new := by
  obtain ⟨mid, hmid⟩ : ∃ mid, (db.markExpired unit now).deleteStagedVersions unit = .ok mid :=
    ⟨_, Except.bind_eq_ok.mpr ⟨(), require_eq_ok.mpr hfree, rfl⟩⟩
  exact ⟨_, Except.bind_eq_ok.mpr ⟨now, sqliteTime_eq_ok.mpr ⟨hnow, rfl⟩,
    Except.bind_eq_ok.mpr ⟨mid, hmid, rfl⟩⟩⟩

/-- A sweep succeeds. -/
theorem sweepExpiredWorkUnits_isOk (inv : Inv A db) (hnow : now < 2 ^ 63) :
    (db.sweepExpiredWorkUnits now).outcome = .ok () := by
  have hturn : ∀ mid : Db, (∀ base ∈ mid.unitBaseVersions, ∀ unit,
      ¬ mid.StagedBy unit base.key base.version) → ∀ unit, ∃ next,
        mid.expireWorkUnit unit now = .ok next ∧ ∀ base ∈ next.unitBaseVersions, ∀ unit,
          ¬ next.StagedBy unit base.key base.version := by
    intro mid hfree unit
    obtain ⟨next, hnext⟩ := expireWorkUnit_isOk hnow fun base hbase => hfree base hbase unit
    refine ⟨next, hnext, fun base hbase unit' hstaged => ?_⟩
    obtain ⟨rfl, -⟩ := expireWorkUnit_spec hnext
    obtain ⟨row, hrow, hrest⟩ := hstaged
    exact hfree base hbase unit' ⟨row, List.mem_of_mem_filter hrow, hrest⟩
  have hfold : ∀ identities : List String, ∃ swept,
      identities.foldlM (fun db identity => db.expireWorkUnit identity now) db = .ok swept := by
    intro identities
    obtain ⟨swept, hswept, -⟩ := Except.foldlM_isOk (fun mid hmid unit _ => hturn mid hmid unit)
      (fun base hbase unit => inv.base_not_staged hbase unit)
    exact ⟨swept, hswept⟩
  obtain ⟨swept, hswept⟩ := hfold (Table.sorted ((db.workUnits.filter fun row =>
    row.Live ∧ row.expiryAction = .discard ∧ row.expiresAtUnixMs ≤ now).map (·.identityJson)))
  unfold sweepExpiredWorkUnits transaction
  have hexpire : db.expireOpenWorkUnits now = .ok swept :=
    Except.bind_eq_ok.mpr ⟨now, bindUnsigned_eq_ok.mpr ⟨hnow, rfl⟩, hswept⟩
  rw [hexpire]
  rfl

/-- A time that SQLite does not hold sweeps nothing. -/
theorem sweepExpiredWorkUnits_of_le (db : Db) (hnow : 2 ^ 63 ≤ now) :
    (db.sweepExpiredWorkUnits now).db = db := by
  unfold sweepExpiredWorkUnits expireOpenWorkUnits bindUnsigned
  rw [if_neg (Nat.not_lt.mpr hnow)]
  rfl

namespace Db.Swept

variable (h : Swept now old new)

include h

/-- Nothing is overdue after a sweep. -/
theorem not_overdue : ∀ u ∈ new.workUnits, ¬ u.Overdue now := by
  rintro u hu ⟨hlive, hover⟩
  rw [h.workUnits_eq] at hu
  obtain ⟨row, -, rfl⟩ := List.mem_map.mp hu
  obtain ⟨heq, -, hlater⟩ := WorkUnitRow.swept_live hlive
  rw [heq] at hover
  exact Nat.not_lt.mpr hover hlater

/-- What is staged after a sweep belongs to units that are not overdue. -/
theorem staged_current (inv : Inv A old) {unit : String}
    (hstaged : (∃ r ∈ new.versions, r.workUnitJson = some unit) ∨
      ∃ r ∈ new.unitIdempotency, r.workUnitJson = unit) :
    ∃ u ∈ new.workUnits, u.identityJson = unit ∧ u.Live ∧ now < u.expiresAtUnixMs := by
  have hnew := (h.expiries.keeps inv).1
  have hlive : ∃ u ∈ new.workUnits, u.identityJson = unit ∧ u.Live := by
    rcases hstaged with ⟨r, hr, hunit⟩ | ⟨r, hr, rfl⟩
    · exact (hnew.staging.staged r hr unit hunit).2.1
    · exact hnew.idempotency.units r hr
  obtain ⟨u, hu, hid, hlive⟩ := hlive
  exact ⟨u, hu, hid, hlive, Nat.lt_of_not_le fun hle => h.not_overdue u hu ⟨hlive, hle⟩⟩

/-- And another one does nothing. -/
theorem again (hnow : now < 2 ^ 63) : new.sweepExpiredWorkUnits now = ⟨.ok (), new⟩ := by
  have hnone : (new.workUnits.filter fun row =>
      row.Live ∧ row.expiryAction = .discard ∧ row.expiresAtUnixMs ≤ now) = [] := by
    refine List.filter_eq_nil_iff.mpr fun u hu => ?_
    rw [decide_eq_true_eq]
    exact fun hover => h.not_overdue u hu ⟨hover.1, hover.2.2⟩
  have hexpire : new.expireOpenWorkUnits now = .ok new := by
    refine Except.bind_eq_ok.mpr ⟨now, bindUnsigned_eq_ok.mpr ⟨hnow, rfl⟩, ?_⟩
    rw [hnone]
    rfl
  unfold sweepExpiredWorkUnits
  rw [hexpire]
  rfl

theorem alike (inv : Inv A old) : Alike old new :=
  .of_sameFields (Expiries.sameTables inv h.expiries) (Expiries.onlyExpired inv h.expiries).fields

/-- The records of the units that are not overdue are kept, and no others. -/
theorem mem_unitIdempotency (inv : Inv A old) {r : WorkUnitIdempotencyRow} :
    r ∈ new.unitIdempotency ↔ r ∈ old.unitIdempotency ∧
      ∀ u ∈ old.workUnits, u.identityJson = r.workUnitJson → ¬ u.Overdue now := by
  have hothers := (Expiries.onlyExpired inv h.expiries).others r.workUnitJson
  have hkept : (∀ u ∈ old.workUnits, u.identityJson = r.workUnitJson → ¬ u.Overdue now) →
      (r ∈ new.unitIdempotency ↔ r ∈ old.unitIdempotency) := fun hnot =>
    (hothers fun u hu hid hlive => Nat.lt_of_not_le fun hover =>
      hnot u hu hid ⟨hlive, hover⟩).records r rfl
  constructor
  · intro hr
    have hnot : ∀ u ∈ old.workUnits, u.identityJson = r.workUnitJson → ¬ u.Overdue now := by
      intro u hu hid hover
      obtain ⟨u', hu', hid', hlive'⟩ := (h.expiries.keeps inv).1.idempotency.units r hr
      rw [h.workUnits_eq] at hu'
      obtain ⟨row, hrow, rfl⟩ := List.mem_map.mp hu'
      obtain ⟨heq, -, hlater⟩ := WorkUnitRow.swept_live hlive'
      rw [heq] at hid'
      rw [inv.staging.unit_eq hrow hu (hid'.trans hid.symm)] at hlater
      exact Nat.not_lt.mpr hover.2 hlater
    exact ⟨(hkept hnot).mp hr, hnot⟩
  · rintro ⟨hr, hnot⟩
    exact (hkept hnot).mpr hr

theorem workUnit? (identity : String) :
    new.workUnit? identity = (old.workUnit? identity).map (·.swept now) := by
  have hid : ∀ row : WorkUnitRow, (row.swept now).identityJson = row.identityJson := by
    intro row
    unfold WorkUnitRow.swept
    split <;> rfl
  unfold Db.workUnit?
  rw [h.workUnits_eq, List.find?_map]
  congr 2
  funext row
  simp [hid]

theorem workUnitBaseline_eq (identity : String) :
    new.workUnitBaseline identity = old.workUnitBaseline identity := by
  unfold workUnitBaseline
  rw [h.workUnit?]
  cases old.workUnit? identity with
  | none => rfl
  | some row =>
    have hcursor : (row.swept now).baselineCursor = row.baselineCursor := by
      unfold WorkUnitRow.swept
      split <;> rfl
    exact congrArg Except.ok hcursor

end Db.Swept

/-! ### The records that are looked up -/

/-- A record that an overdue unit has staged for an identity, and that is not over itself. -/
def Db.StagedOverdue (db : Db) (identity : String) (now : ℕ) : Prop :=
  now < 2 ^ 63 ∧ ∃ staged ∈ db.unitIdempotency, staged.record.identityJson = identity ∧
    now < staged.record.expiresAtUnixMs ∧
    ∃ u ∈ db.workUnits, u.identityJson = staged.workUnitJson ∧ u.Overdue now

instance (db : Db) (identity : String) (now : ℕ) : Decidable (db.StagedOverdue identity now) :=
  inferInstanceAs (Decidable (now < 2 ^ 63 ∧ ∃ staged ∈ db.unitIdempotency,
    staged.record.identityJson = identity ∧ now < staged.record.expiresAtUnixMs ∧
      ∃ u ∈ db.workUnits, u.identityJson = staged.workUnitJson ∧ u.Overdue now))

theorem Db.IdempotencyInv.unitIdempotency?_eq_some (inv : IdempotencyInv db) {identity : String}
    {staged : WorkUnitIdempotencyRow} :
    (db.forgetOverdue now).unitIdempotency? identity = some staged ↔
      staged ∈ db.unitIdempotency ∧ now < staged.record.expiresAtUnixMs ∧
        staged.record.identityJson = identity := by
  have hmem : ∀ row, row ∈ (db.forgetOverdue now).unitIdempotency ↔
      row ∈ db.unitIdempotency ∧ now < row.record.expiresAtUnixMs := by
    intro row
    simp [forgetOverdue]
  constructor
  · intro hfound
    obtain ⟨hrow, hlater⟩ := (hmem staged).mp (List.mem_of_find?_eq_some hfound)
    exact ⟨hrow, hlater, by simpa using List.find?_some hfound⟩
  · rintro ⟨hrow, hlater, rfl⟩
    cases hfound : (db.forgetOverdue now).unitIdempotency? staged.record.identityJson with
    | none =>
      exact absurd rfl (IdempotencyInv.unitIdempotency?_eq_none.mp hfound staged
        ((hmem staged).mpr ⟨hrow, hlater⟩))
    | some row =>
      obtain ⟨hrow', -⟩ := (hmem row).mp (List.mem_of_find?_eq_some hfound)
      have hid : row.record.identityJson = staged.record.identityJson := by
        simpa using List.find?_some hfound
      rw [Table.eq_of_key_eq (fun row : WorkUnitIdempotencyRow => row.record.identityJson)
        inv.unitRecordKeys hrow' hrow hid]

section Records

variable (h : Swept now old new) (inv : Inv A old) {identity : String}

include h inv

/-- Without a staged record of an overdue unit, the lookups find the same. -/
theorem Db.Swept.unitIdempotency?_eq (hno : ¬ old.StagedOverdue identity now)
    (hnow : now < 2 ^ 63) : (new.forgetOverdue now).unitIdempotency? identity =
      (old.forgetOverdue now).unitIdempotency? identity := by
  have hinv := (h.expiries.keeps inv).1.idempotency
  refine Option.ext fun staged => ?_
  rw [hinv.unitIdempotency?_eq_some, inv.idempotency.unitIdempotency?_eq_some,
    h.mem_unitIdempotency inv]
  constructor
  · rintro ⟨⟨hmem, -⟩, hrest⟩
    exact ⟨hmem, hrest⟩
  · rintro ⟨hmem, hlater, hid⟩
    refine ⟨⟨hmem, fun u hu hunit hover => hno ?_⟩, hlater, hid⟩
    exact ⟨hnow, staged, hmem, hid, hlater, u, hu, hunit, hover⟩

theorem Db.Swept.idempotency?_eq (identity : String) :
    (new.forgetOverdue now).idempotency? identity =
      (old.forgetOverdue now).idempotency? identity := by
  have htables := ((h.alike inv).tables.forgetOverdue now).idempotency
  unfold idempotency?
  rw [htables]

/-- With one, the lookup finds it before a sweep and nothing after it. -/
theorem Db.Swept.unitIdempotency?_of_overdue (hover : old.StagedOverdue identity now) :
    (old.forgetOverdue now).idempotency? identity = none ∧
    (new.forgetOverdue now).unitIdempotency? identity = none ∧
    ∃ staged, (old.forgetOverdue now).unitIdempotency? identity = some staged ∧
      ∃ u ∈ old.workUnits, u.identityJson = staged.workUnitJson ∧ u.Overdue now := by
  obtain ⟨-, staged, hmem, hid, hlater, u, hu, hunit, hoverdue⟩ := hover
  refine ⟨IdempotencyInv.idempotency?_eq_none.mpr fun r hr hrid => ?_,
    IdempotencyInv.unitIdempotency?_eq_none.mpr fun r hr hrid => ?_, staged,
    inv.idempotency.unitIdempotency?_eq_some.mpr ⟨hmem, hlater, hid⟩, u, hu, hunit, hoverdue⟩
  · exact inv.idempotency.disjoint r (List.mem_of_mem_filter hr) staged hmem (hrid.trans hid.symm)
  · obtain ⟨hold, hnot⟩ := (h.mem_unitIdempotency inv).mp (List.mem_of_mem_filter hr)
    obtain rfl := Table.eq_of_key_eq (fun row : WorkUnitIdempotencyRow => row.record.identityJson)
      inv.idempotency.unitRecordKeys hold hmem (hrid.trans hid.symm)
    exact hnot u hu hunit hoverdue

end Records

end Patchouli
