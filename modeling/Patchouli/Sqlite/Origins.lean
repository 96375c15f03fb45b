import Patchouli.Sqlite.Batch
import Patchouli.Sqlite.UnitHeads

/-!
# Where rows come from

A row of a later state was there before, or it is a staged row of a unit that has been published
since, or it was brought by a commit. What a call brings is known of the call, so a name that no
call brings again belongs for ever to the row that had it, or to nobody once that row is gone.

## Main definitions

* `EntityVersionRow.Stores` — a row and the version it was written for
* `RowFrom` — where a row of a later state comes from

## Main results

* `Effects.rowFrom` — every row of a later state comes from somewhere
* `Effects.onlyIn` — what one unit alone holds under a name, nobody else holds until the unit is
  published
-/

namespace Patchouli

open Db Relation

variable {A : Automerge} {K : Known} {old mid new : Db} {key : EntityKey} {unit version : String}

/-! ### Rows -/

/-- The row was written for the version. -/
structure EntityVersionRow.Stores (row : EntityVersionRow) (v : StoredEntityVersion) : Prop where
  version : v.version = row.version
  state : v.state = row.state
  value : v.valueJson = row.valueJson

/-- Where a row of a later state comes from. -/
inductive RowFrom (K : Known) (old new : Db) (r : EntityVersionRow) : Prop
  | kept (h : r ∈ old.versions)
  | published {unit : String} {cursor : ℕ} {r' : EntityVersionRow} (hold : r' ∈ old.versions)
    (hunit : r'.workUnitJson = some unit) (hcommitted : new.Committed unit)
    (heq : r = publishedRow cursor r')
  | brought {v : StoredEntityVersion} (h : K.version r.key v) (hstores : r.Stores v)

theorem Upkeep.rows (h : Upkeep K old new) : ∀ r ∈ new.versions, r ∈ old.versions := by
  intro r hr
  cases h with
  | sessions => exact hr
  | forget => exact hr
  | note => exact hr
  | prune => exact hr
  | openUnit => exact hr
  | expire h =>
    obtain ⟨-, -, -, h⟩ := h
    obtain ⟨rfl, -⟩ := expireWorkUnit_spec h
    exact (List.mem_filter.mp hr).1
  | capture _ _ _ h =>
    obtain ⟨_, _, rfl⟩ := captureWorkUnitEntity_eq h
    exact hr

theorem Upkeeps.rows (h : Upkeeps K old new) : ∀ r ∈ new.versions, r ∈ old.versions := by
  induction h with
  | refl => exact fun _ hr => hr
  | tail _ hstep ih => exact fun r hr => ih r (hstep.rows r hr)

theorem Effect.committed (hlaw : A.Lawful) (inv : Inv A old) (h : Effect A K old new)
    (hold : old.Committed unit) : new.Committed unit := by
  obtain ⟨u, hu, hid, hstate⟩ := hold
  obtain ⟨u', hu', hev⟩ := (h.keeps hlaw inv).2.units u hu
  refine ⟨u', hu', hev.identityJson.trans hid, ?_⟩
  rw [hev.final (by simp [WorkUnitRow.Live, hstate]), hstate]

theorem Effects.committed (hlaw : A.Lawful) (inv : Inv A old) (h : Effects A K old new)
    (hold : old.Committed unit) : new.Committed unit := by
  induction h with
  | refl => exact hold
  | tail hbefore hstep ih => exact hstep.committed hlaw (Effects.keeps hlaw inv hbefore).1 ih

/-- **Where the rows come from**, effect by effect. -/
theorem Effect.rowFrom (hlaw : A.Lawful) (inv : Inv A old) (h : Effect A K old new) :
    ∀ r ∈ new.versions, RowFrom K old new r := by
  intro r hr
  cases h with
  | upkeep h => exact .kept (h.rows r hr)
  | commit hformed hadded h =>
    obtain ⟨-, -, -, ⟨recordedAt, hversions⟩, -⟩ :=
      commitEntityInTransaction_spec hlaw inv.crdt hformed.genuine h
    rw [hversions] at hr
    rcases List.mem_append.mp hr with hold | hnew
    · exact .kept hold
    · obtain ⟨v, hv, rfl⟩ := List.mem_map.mp hnew
      exact .brought (hadded v hv) ⟨rfl, rfl, rfl⟩
  | record _ h =>
    rw [insertIdempotency_eq h] at hr
    exact .kept hr
  | @stage _ u staged recordedAt hunit hid hopen hformed hadded hheads h =>
    have hcrdt : CrdtInv A (old.recordStagedMutation staged) :=
      inv.crdt.congr (fun _ _ h => h) rfl rfl rfl
    obtain ⟨mid, hinsert, hreplace⟩ := Except.bind_eq_ok.mp h
    obtain ⟨⟨_, _, _, rfl⟩, -⟩ := stage_spec hlaw hcrdt hformed.genuine hinsert hreplace
    rcases List.mem_append.mp hr with hold | hnew
    · exact .kept hold
    · obtain ⟨v, hv, rfl⟩ := List.mem_map.mp hnew
      exact .brought (hadded v hv) ⟨rfl, rfl, rfl⟩
  | stageRecord _ _ _ h =>
    rw [insertWorkUnitIdempotency_eq h] at hr
    exact .kept hr
  | close identity => exact .kept hr
  | resolve hunit hclosing _ _ hgenuine hadded hinsert h =>
    obtain ⟨⟨_, _, _, rfl⟩, -⟩ := stage_spec hlaw inv.crdt hgenuine hinsert h
    rcases List.mem_append.mp hr with hold | hnew
    · exact .kept hold
    · obtain ⟨v, hv, rfl⟩ := List.mem_map.mp hnew
      exact .brought (hadded v hv) ⟨rfl, rfl, rfl⟩
  | @publish _ u recordedAt hunit hclosing h =>
    obtain ⟨mid, -, hpublished, -, -, -, rfl⟩ :=
      finishWorkUnitPublication_spec inv hunit (Or.inr hclosing) h
    rcases hpublished.from_old r hr with ⟨hold, -⟩ | ⟨r', hold, hstaged, -, cursor, rfl⟩
    · exact .kept hold
    · have hmid : u ∈ mid.workUnits := hpublished.workUnits_eq ▸ hunit
      refine .published hold hstaged ⟨_, List.mem_map_of_mem hmid, ?_, ?_⟩ rfl
      · rw [if_pos rfl]
      · rw [if_pos rfl]

/-- **Where the rows come from.** -/
theorem Effects.rowFrom (hlaw : A.Lawful) (inv : Inv A old) (h : Effects A K old new) :
    ∀ r ∈ new.versions, RowFrom K old new r := by
  induction h with
  | refl => exact fun r hr => .kept hr
  | @tail mid new hbefore hstep ih =>
    have hmid := (Effects.keeps hlaw inv hbefore).1
    intro r hr
    cases hstep.rowFrom hlaw hmid r hr with
    | kept hkept =>
      cases ih r hkept with
      | kept h => exact .kept h
      | published hold hunit hcommitted heq =>
        exact .published hold hunit (hstep.committed hlaw hmid hcommitted) heq
      | brought h hstores => exact .brought h hstores
    | @published unit cursor r' hr' hunit hcommitted heq =>
      subst heq
      cases ih r' hr' with
      | kept h => exact .published h hunit hcommitted rfl
      | published _ _ _ heq => exact absurd (heq ▸ hunit) (by simp [publishedRow])
      | brought h hstores => exact .brought h ⟨hstores.version, hstores.state, hstores.value⟩
    | brought h hstores => exact .brought h hstores

/-! ### Names -/

/-- Under a name, only the unit holds a row. -/
def Db.OnlyIn (db : Db) (unit : String) (key : EntityKey) (version : String) : Prop :=
  ∀ r ∈ db.versions, r.key = key → r.version = version → r.workUnitJson = some unit

theorem Db.StagedBy.onlyIn (h : old.StagedBy unit key version) (inv : StagingInv old) :
    old.OnlyIn unit key version := by
  obtain ⟨r, hr, hunit, hkey, hname⟩ := h
  intro r' hr' hkey' hname'
  rw [inv.versionKeys.eq hr' hr (hkey'.trans hkey.symm) (hname'.trans hname.symm)]
  exact hunit

/-- A name that is not brought again stays with its unit until the unit is published. -/
theorem Effects.onlyIn (hlaw : A.Lawful) (inv : Inv A old) (h : Effects A K old new)
    (hold : old.OnlyIn unit key version) (hnot : ¬ new.Committed unit)
    (hnew : ∀ v, K.version key v → v.version ≠ version) : new.OnlyIn unit key version := by
  intro r hr hkey hname
  cases Effects.rowFrom hlaw inv h r hr with
  | kept h => exact hold r h hkey hname
  | @published unit' cursor r' hr' hunit hcommitted heq =>
    subst heq
    have hsame := hold r' hr' hkey hname
    rw [hunit, Option.some.injEq] at hsame
    exact absurd (hsame ▸ hcommitted) hnot
  | brought h hstores => exact absurd (hstores.version.trans hname) (hnew _ (hkey ▸ h))

end Patchouli
