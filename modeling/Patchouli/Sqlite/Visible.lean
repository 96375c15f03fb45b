import Patchouli.Sqlite.Origins
import Patchouli.Sqlite.Matches
import Patchouli.Sqlite.Undisturbed
import Patchouli.Sqlite.Conflicted

/-!
# What a unit keeps to itself, and what its publication shows

A staged version is a row like any other; what keeps it private is that its row carries the unit,
and that every query asks for that. Two facts carry the module. As long as only the unit holds a
name, no snapshot of anybody else has it (`Db.OnlyIn.readEntitySnapshot`,
`Db.OnlyIn.readWorkUnitSnapshot`). And the transaction that publishes a unit gathers what the unit
has and what the transaction itself adds, and then shows all of it: every version, the heads of
every entity, one change for each entity, and the records that are not overdue.

## Main definitions

* `EntitySnapshot.Names` — the versions a snapshot mentions
* `Gathers`, `Shown`, `AppearsAtOnce` — the two halves of a publishing transaction

## Main results

* `Db.OnlyIn.readEntitySnapshot`, `Db.OnlyIn.readWorkUnitSnapshot` — a staged name is hidden
* `finishWorkUnitPublication_shown` — the publication shows all of the unit
* `WorkUnitCommitted.appears`, `WorkUnitPublished.appears` — the two calls that publish
-/

namespace Patchouli

open Db Relation

variable {A : Automerge} {K : Known} {db old mid new : Db} {key : EntityKey}
  {unit version : String} {clock : Clock}

/-! ### Hidden versions -/

/-- A snapshot names a version, as a head or among its versions. -/
def EntitySnapshot.Names (snapshot : EntitySnapshot) (version : String) : Prop :=
  version ∈ snapshot.headVersions ∨ ∃ v ∈ snapshot.versions, v.version = version

/-- What is in the baseline of a unit is published. -/
theorem Db.InBaseline.isPublished (h : db.InBaseline unit key version) (inv : Inv A db) :
    db.IsPublished key version := by
  obtain ⟨b, hb, hid, rfl, rfl⟩ := h
  obtain ⟨e, he, heid, hekey⟩ := inv.baseline.entities b hb
  obtain ⟨u, hu, huid, -⟩ := inv.staging.entityUnits e he
  have hrow : ⟨e.workUnitJson, e.key, b.version, b.isHead⟩ ∈ db.unitBaseVersions := by
    rw [heid, hekey]
    exact hb
  obtain ⟨⟨r, hr, hkey, hname, hby⟩, -⟩ := (inv.baseline.base e he u hu huid _ _).mp hrow
  exact ⟨r, hr, hkey.trans hekey, hname, hby.1⟩

namespace Db.OnlyIn

theorem mono (h : old.OnlyIn unit key version) (hrows : ∀ r ∈ new.versions, r ∈ old.versions) :
    new.OnlyIn unit key version :=
  fun r hr => h r (hrows r hr)

/-- What only a unit holds is not published. -/
theorem not_isPublished (h : db.OnlyIn unit key version) : ¬ db.IsPublished key version := by
  rintro ⟨r, hr, hkey, hname, hnone⟩
  have hunit := h r hr hkey hname
  rw [hnone] at hunit
  cases hunit

/-- The published state of the entity does not name it. -/
theorem readEntitySnapshot (h : db.OnlyIn unit key version) (inv : Inv A db)
    {snapshot : EntitySnapshot} (hread : db.readEntitySnapshot key = some snapshot) :
    ¬ snapshot.Names version := by
  unfold Db.readEntitySnapshot at hread
  split at hread
  · cases hread
  · rw [Option.some.injEq] at hread
    subst hread
    rintro (hhead | ⟨v, hv, hname⟩)
    · exact h.not_isPublished (inv.published.isPublished (mem_publishedHeads.mp hhead))
    · obtain ⟨r, hr, hvisible, rfl⟩ := mem_snapshotVersions.mp hv
      obtain ⟨hkey, hcursor⟩ := of_decide_eq_true hvisible
      have hunit := h r hr hkey hname
      rw [(inv.staging.staged r hr unit hunit).1] at hcursor
      cases hcursor

/-- Another unit does not read it. -/
theorem readWorkUnitSnapshot (h : db.OnlyIn unit key version) (inv : Inv A db) {other : String}
    (hne : other ≠ unit) {snapshot : EntitySnapshot}
    (hread : db.readWorkUnitSnapshot other key = some snapshot) : ¬ snapshot.Names version := by
  obtain ⟨hheads, hversions⟩ := readWorkUnitSnapshot_eq_some hread
  have hother : ¬ db.StagedBy other key version := by
    rintro ⟨r, hr, hunit, hkey, hname⟩
    have hsame := h r hr hkey hname
    rw [hunit, Option.some.injEq] at hsame
    exact hne hsame
  rintro (hhead | ⟨v, hv, hname⟩)
  · rw [hheads] at hhead
    exact (inv.workUnitHeads_stored hhead).elim h.not_isPublished hother
  · obtain ⟨r, hr, ⟨hkey, hseen⟩, rfl⟩ := (hversions v).mp hv
    rcases hseen with hbase | hunit
    · exact h.not_isPublished (hname ▸ hkey ▸ hbase.isPublished inv)
    · exact hother ⟨r, hr, hunit, hkey, hname⟩

end Db.OnlyIn

/-! ### The tables in which a unit is published -/

/-- The tables in which a transaction publishes a unit hold what the unit had, and what the
transaction writes to it; `now` is the time at which it forgot overdue records. -/
structure Gathers (now : ℕ) (writes : EntityKey → Prop) (unit : String) (old mid : Db) : Prop where
  versions : ∀ r ∈ old.versions, r.workUnitJson = some unit → r ∈ mid.versions
  entities : ∀ key, old.HasUnitHeads unit key → mid.HasUnitHeads unit key
  heads : ∀ key, ¬ writes key → ∀ version,
    (⟨unit, key, version⟩ : WorkUnitHeadRow) ∈ mid.unitHeads ↔ ⟨unit, key, version⟩ ∈ old.unitHeads
  records : ∀ s ∈ old.unitIdempotency, s.workUnitJson = unit →
    s ∈ mid.unitIdempotency ∨ s.record.expiresAtUnixMs ≤ now
  publishedHeads : ∀ key, mid.publishedHeads key = old.publishedHeads key
  changes : mid.changes = old.changes

/-- The publication shows all that the unit has: each version, the heads of each entity, one change
for each entity, and each record that is not overdue. -/
structure Shown (unit : String) (mid new : Db) : Prop where
  versions : ∀ r ∈ mid.versions, r.workUnitJson = some unit →
    ∃ cursor, publishedRow cursor r ∈ new.versions
  none_left : ∀ r ∈ new.versions, r.workUnitJson ≠ some unit
  heads : ∀ key, new.publishedHeads key =
    if mid.HasUnitHeads unit key then mid.directWorkUnitHeads unit key else mid.publishedHeads key
  changes : ∃ (keys : List EntityKey) (added : List ChangeRow), keys.Nodup ∧
    (∀ key, key ∈ keys ↔ mid.HasUnitHeads unit key) ∧ new.changes = mid.changes ++ added ∧
      added.map (fun c => (c.key, c.headVersionsJson)) =
        keys.map fun key => (key, mid.directWorkUnitHeads unit key)
  records : ∃ recordedAt, (∃ u ∈ new.workUnits, u.identityJson = unit ∧ u.state = .committed ∧
      u.closedAtUnixMs = some recordedAt) ∧
    ∀ s ∈ mid.unitIdempotency, s.workUnitJson = unit → recordedAt < s.record.expiresAtUnixMs →
      s.record ∈ new.idempotency

/-- **One transaction makes all of a unit visible.** -/
def AppearsAtOnce (now : ℕ) (writes : EntityKey → Prop) (unit : String) (old new : Db) : Prop :=
  ∃ mid, Gathers now writes unit old mid ∧ Shown unit mid new

variable {now : ℕ} {writes : EntityKey → Prop}

namespace Gathers

theorem refl (db : Db) : Gathers now writes unit db db :=
  ⟨fun _ hr _ => hr, fun _ h => h, fun _ _ _ => Iff.rfl, fun _ hs _ => Or.inl hs, fun _ => rfl, rfl⟩

theorem trans (h : Gathers now writes unit old mid) (h' : Gathers now writes unit mid new) :
    Gathers now writes unit old new where
  versions r hr hunit := h'.versions r (h.versions r hr hunit) hunit
  entities key hkey := h'.entities key (h.entities key hkey)
  heads key hkey version := (h'.heads key hkey version).trans (h.heads key hkey version)
  records s hs hunit := (h.records s hs hunit).elim (fun hmid => h'.records s hmid hunit) Or.inr
  publishedHeads key := (h'.publishedHeads key).trans (h.publishedHeads key)
  changes := h'.changes.trans h.changes

/-- What keeps a unit as it is gathers it. -/
theorem of_same (hpublished : SamePublished old new) (hprivate : SamePrivate unit old new) :
    Gathers now writes unit old new where
  versions r hr hunit := (hprivate.versions r hunit).mpr hr
  entities key := by
    rintro ⟨head, hhead, hid, hkey⟩
    exact ⟨head, (hprivate.heads head hid).mpr hhead, hid, hkey⟩
  heads key _ version := hprivate.heads _ rfl
  records s hs hunit := Or.inl ((hprivate.records s hunit).mpr hs)
  publishedHeads := hpublished.publishedHeads_eq
  changes := hpublished.changes

/-- A change of the units' states only. -/
theorem of_workUnits {workUnits : List WorkUnitRow} :
    Gathers now writes unit old { old with workUnits } :=
  ⟨fun _ hr _ => hr, fun _ h => h, fun _ _ _ => Iff.rfl, fun _ hs _ => Or.inl hs, fun _ => rfl, rfl⟩

end Gathers

/-- A sweep that leaves the unit alone. -/
theorem Db.Swept.gathers (inv : Inv A old) {swept base : Db} {workUnit : WorkUnit}
    {state : StoredWorkUnitState} (hswept : Swept clock.sweep old swept)
    (hensured : Ensured swept workUnit state base) (hstate : state = .opened ∨ state = .closing) :
    Gathers now writes workUnit.identityJson old swept := by
  have honly := Expiries.onlyExpired inv hswept.expiries
  have inv' := (Expiries.keeps inv hswept.expiries).1
  refine .of_same honly.published (honly.others _ fun u hu hid hlive => ?_)
  by_contra hover
  -- an overdue unit would have been found expired
  have hmem : u.swept clock.sweep ∈ swept.workUnits := by
    rw [hswept.workUnits_eq]
    exact List.mem_map_of_mem hu
  have hexpired : u.swept clock.sweep =
      { u with state := .expired, closedAtUnixMs := some clock.sweep } :=
    if_pos ⟨hlive, Nat.le_of_not_lt hover⟩
  rw [hexpired] at hmem
  have hfound := workUnit?_of_mem inv'.staging.unitKeys hmem
  rw [show (_ : WorkUnitRow).identityJson = workUnit.identityJson from hid] at hfound
  cases hensured with
  | created hnew =>
    rw [hnew] at hfound
    cases hfound
  | opened hrow _ _ hopen =>
    rw [hrow, Option.some.injEq] at hfound
    subst hfound
    cases hopen
  | closing hrow _ _ hclosing =>
    rw [hrow, Option.some.injEq] at hfound
    subst hfound
    cases hclosing
  | mismatch => simp at hstate
  | committed => simp at hstate
  | expired => simp at hstate
  | overdue => simp at hstate

/-- Finding the unit open, or opening it. -/
theorem Ensured.gathers {workUnit : WorkUnit} (h : Ensured old workUnit .opened new) :
    Gathers now writes unit old new := by
  cases h with
  | created => exact .of_workUnits
  | opened => exact .refl old

/-- Staging a mutation. -/
theorem StagedIn.gathers {entity : WorkUnitCommit} (hwrites : writes entity.entity.key)
    (h : StagedIn entity old new) :
    Gathers entity.workUnit.nowUnixMs writes entity.workUnit.identityJson old new := by
  obtain ⟨hunit, hid, huscope, hopen, hcapture, hheads, hstage, hrecord⟩ := h
  rename_i row captured staged recordedAt
  rw [← hid] at hcapture
  obtain ⟨entities, bases, rfl, -, -⟩ := captureWorkUnitEntity_frame hcapture
  obtain ⟨inserted, hinsert, hreplace⟩ := Except.bind_eq_ok.mp hstage
  obtain ⟨added, crdtChanges, crdtParents, crdtHeads, rfl, -, -⟩ :=
    insertEntityVersions_frame hinsert
  obtain ⟨-, hne, -, -, rfl⟩ := replaceWorkUnitHeads_eq_ok.mp hreplace
  obtain ⟨forgotten, extra, hforgotten, rfl, -⟩ := (stageIdempotency_none hrecord).frame
  have hkept : ∀ s ∈ old.unitIdempotency, s ∈ forgotten.unitIdempotency ∨
      s.record.expiresAtUnixMs ≤ entity.workUnit.nowUnixMs := by
    intro s hs
    rcases hforgotten with rfl | hforget
    · exact Or.inl hs
    · obtain ⟨-, rfl⟩ := deleteOverdueIdempotency_eq_ok.mp hforget
      rcases Nat.lt_or_ge entity.workUnit.nowUnixMs s.record.expiresAtUnixMs with hlt | hle
      · exact Or.inl (List.mem_filter.mpr ⟨hs, decide_eq_true hlt⟩)
      · exact Or.inr hle
  have hrest : forgotten.versions = old.versions ++ added ∧
      forgotten.unitHeads = (old.unitHeads.filter fun head =>
          ¬ (head.workUnitJson = entity.workUnit.identityJson ∧ head.key = entity.entity.key)) ++
        (Table.sorted entity.entity.headVersions).map (fun version =>
          ⟨entity.workUnit.identityJson, entity.entity.key, version⟩) ∧
      forgotten.heads = old.heads ∧ forgotten.changes = old.changes := by
    rcases hforgotten with rfl | hforget
    · exact ⟨rfl, rfl, rfl, rfl⟩
    · obtain ⟨-, rfl⟩ := deleteOverdueIdempotency_eq_ok.mp hforget
      exact ⟨rfl, rfl, rfl, rfl⟩
  obtain ⟨hversions, hunitHeads, hpublished, hchanges⟩ := hrest
  refine ⟨fun r hr _ => ?_, fun key hkey => ?_, fun key hkey version => ?_, fun s hs _ => ?_,
    fun key => ?_, hchanges⟩
  · exact hversions ▸ List.mem_append_left _ hr
  · exact hasUnitHeads_replaced hne hunitHeads hkey
  · have hne : key ≠ entity.entity.key := fun heq => hkey (heq ▸ hwrites)
    show _ ∈ forgotten.unitHeads ↔ _
    rw [hunitHeads, StagingInv.mem_replaced]
    constructor
    · rintro (⟨hold, -⟩ | ⟨-, heq, -⟩)
      · exact hold
      · exact absurd heq hne
    · exact fun hold => Or.inl ⟨hold, fun hsame => hne hsame.2⟩
  · exact (hkept s hs).imp_left (List.mem_append_left _)
  · exact congrArg (fun heads => Table.sorted ((heads.filter (·.key = key)).map (·.version)))
      hpublished

theorem hasUnitHeads_iff : db.HasUnitHeads unit key ↔ db.directWorkUnitHeads unit key ≠ [] := by
  constructor
  · rintro ⟨head, hhead, rfl, rfl⟩
    exact List.ne_nil_of_mem (mem_directWorkUnitHeads.mpr hhead)
  · intro hne
    obtain ⟨version, hversion⟩ := List.exists_mem_of_ne_nil _ hne
    exact ⟨_, mem_directWorkUnitHeads.mp hversion, rfl, rfl⟩

/-- Applying resolutions. -/
theorem Db.ResolvedIn.gathers {resolutions : List WorkUnitResolution}
    {conflicts : List WorkUnitConflict} (hwrites : ∀ r ∈ resolutions, writes r.entity.key)
    (hformed : ∀ r ∈ resolutions, r.WellFormed A)
    (hstaged : ∀ conflict ∈ conflicts, conflict.staged.headVersions ≠ [])
    (h : ResolvedIn unit resolutions conflicts old new) :
    Gathers now writes unit old new := by
  obtain ⟨⟨added, unitHeads, crdtChanges, crdtParents, crdtHeads, heq, -⟩, hothers, hresolved⟩ := h
  have hkept : ∀ key, key ∉ conflicts.map (·.key) →
      new.directWorkUnitHeads unit key = old.directWorkUnitHeads unit key :=
    fun key hkey => hothers unit key fun hsame => hkey hsame.2
  refine ⟨fun r hr _ => ?_, fun key hkey => ?_, fun key hkey version => ?_, fun s hs _ => Or.inl ?_,
    fun key => ?_, by rw [heq]⟩
  · rw [heq]
    exact List.mem_append_left _ hr
  · rw [hasUnitHeads_iff] at hkey ⊢
    by_cases hconflict : key ∈ conflicts.map (·.key)
    · obtain ⟨conflict, hmem, rfl⟩ := List.mem_map.mp hconflict
      obtain ⟨r, hr, -, -, hexpected, hheads⟩ := hresolved conflict hmem
      obtain ⟨version, hversion⟩ := List.exists_mem_of_ne_nil _ (hstaged conflict hmem)
      rw [← hexpected, Table.mem_sorted] at hversion
      have hhead : ∃ version, version ∈ r.entity.headVersions :=
        (hformed r hr).keeps.elim (fun ⟨v, hv, _⟩ => ⟨v, hv⟩) fun hall => ⟨_, hall _ hversion⟩
      obtain ⟨v, hv⟩ := hhead
      rw [hheads]
      exact List.ne_nil_of_mem (Table.mem_sorted.mpr hv)
    · rwa [hkept key hconflict]
  · rw [← mem_directWorkUnitHeads, ← mem_directWorkUnitHeads, hkept key]
    rintro hconflict
    obtain ⟨conflict, hmem, rfl⟩ := List.mem_map.mp hconflict
    obtain ⟨r, hr, hrkey, -⟩ := hresolved conflict hmem
    exact hkey (hrkey ▸ hwrites r hr)
  · rw [heq]
    exact hs
  · rw [heq]
    rfl

/-- **The publication shows all of the unit.** -/
theorem finishWorkUnitPublication_shown (inv : Inv A old) {row : WorkUnitRow}
    (hrow : row ∈ old.workUnits) (hid : row.identityJson = unit) (hlive : row.Live)
    {recordedAt : ℕ} (h : old.finishWorkUnitPublication unit recordedAt = .ok new) :
    Shown unit old new := by
  subst hid
  obtain ⟨mid, -, hpublished, hnone, -, -, rfl⟩ := finishWorkUnitPublication_spec inv hrow hlive h
  have hmutated : ∀ key, key ∈ old.workUnitMutatedEntities row.identityJson ↔
      old.HasUnitHeads row.identityJson key := by
    intro key
    rw [mem_workUnitMutatedEntities, and_iff_right_of_imp]
    rintro ⟨head, hhead, hid, hkey⟩
    obtain ⟨e, he, heid, hekey⟩ := inv.staging.headEntities head hhead
    exact ⟨e, he, heid.trans hid, hekey.trans hkey⟩
  refine ⟨fun r hr hunit => ?_, hnone, fun key => ?_, ?_, recordedAt, ⟨_, List.mem_map_of_mem
    (hpublished.workUnits_eq ▸ hrow), ?_⟩, fun s hs hunit hlater => ?_⟩
  · exact hpublished.published r hr hunit (inv.staging.mutated hr hunit)
  · have hheads := hpublished.heads key
    simp only [hmutated] at hheads
    exact hheads
  · obtain ⟨added, hchanges, hrecorded⟩ := hpublished.changes
    exact ⟨_, added, inv.staging.nodup_mutated _, hmutated, hchanges, hrecorded⟩
  · rw [if_pos rfl]
    exact ⟨rfl, rfl, rfl⟩
  · refine List.mem_append_right _ (List.mem_map.mpr ⟨s, List.mem_filter.mpr ⟨?_, ?_⟩, rfl⟩)
    · exact hpublished.unitIdempotency_eq ▸ hs
    · exact decide_eq_true ⟨hunit, hlater⟩

/-! ### The calls that publish -/

/-- A unit that is committed, and that no step has committed, was committed. -/
theorem NoneSettled.committed {except : String → Prop} (h : NoneSettled except old new)
    (hunit : ¬ except unit) (hcommitted : new.Committed unit) : old.Committed unit := by
  obtain ⟨u, hu, rfl, hstate⟩ := hcommitted
  exact ⟨u, h u hu (Or.inr hstate) hunit, rfl, hstate⟩

/-- What was staged in a unit is published where the unit is committed. -/
theorem Db.Extends.publishes_staged (h : Extends old new) (inv' : Inv A new) {r : EntityVersionRow}
    (hr : r ∈ old.versions) (hunit : r.workUnitJson = some unit) (hcommitted : new.Committed unit) :
    ∃ cursor, publishedRow cursor r ∈ new.versions := by
  obtain ⟨u, hu, hid, hstate⟩ := hcommitted
  rcases h.staged r hr unit hunit with hstill | hpublished | ⟨u', hu', hid', hexpired⟩
  · obtain ⟨-, ⟨u', hu', hid', hlive⟩, -⟩ := inv'.staging.staged r hstill unit hunit
    obtain rfl := inv'.staging.unit_eq hu' hu (hid'.trans hid.symm)
    simp [WorkUnitRow.Live, hstate] at hlive
  · exact hpublished
  · obtain rfl := inv'.staging.unit_eq hu' hu (hid'.trans hid.symm)
    rw [hstate] at hexpired
    cases hexpired

/-- A publication that commits a unit that was not committed shows that unit. -/
theorem finishWorkUnitPublication_appears (inv : Inv A mid) {call : String}
    (hclosing : mid.IsClosing call) (hunits : NoneSettled (· = call) old mid)
    (hgathers : Gathers now writes call old mid) {recordedAt : ℕ}
    (h : mid.finishWorkUnitPublication call recordedAt = .ok new)
    (hbefore : ¬ old.Committed unit) (hafter : new.Committed unit) :
    AppearsAtOnce now writes unit old new := by
  obtain ⟨u, hu, hid, hstate⟩ := hclosing
  have hlive : u.Live := Or.inr hstate
  by_cases hsame : unit = call
  · subst hsame
    exact ⟨mid, hgathers, finishWorkUnitPublication_shown inv hu hid hlive h⟩
  · have hall := hunits.trans (finishWorkUnitPublication_noneSettled inv hu hid hlive h)
    exact absurd (hall.committed hsame hafter) hbefore

/-- A commit that published a unit: it was the unit of the call. -/
theorem WorkUnitCommitted.appears (hlaw : A.Lawful) (inv : Inv A old) {entity : WorkUnitCommit}
    {outcome : Except ProviderError WorkUnitCommitOutcome}
    (hformed : entity.entity.WellFormed A)
    (hscope : entity.workUnit.scopeJson = entity.entity.key.scopeJson)
    (hwrites : writes entity.entity.key) (h : WorkUnitCommitted clock entity old outcome new)
    (hbefore : ¬ old.Committed unit) (hafter : new.Committed unit) :
    AppearsAtOnce entity.workUnit.nowUnixMs writes unit old new := by
  let K : Known := ⟨fun _ _ => True, fun _ => True, fun _ => False⟩
  have hquiet : ∀ {mid : Db}, Upkeeps K old mid → ∀ {unit}, mid.Committed unit →
      old.Committed unit :=
    fun h _ => (Upkeeps.noneSettled (fun _ => False) h).committed not_false
  cases h with
  | failed h => exact absurd (hquiet (Expiries.upkeeps K h) hafter) hbefore
  | refused h => exact absurd (hquiet (Expiries.upkeeps K h) hafter) hbefore
  | @staged swept base _ hswept hensured hstaged hclose =>
    have hbase : Upkeeps K old base :=
      (Expiries.upkeeps K hswept.expiries).trans (hensured.upkeeps trivial)
    obtain ⟨_, _, _, _, _, _, _, _, heq⟩ :=
      hstaged.eq hlaw (Upkeeps.keeps inv hbase).1 hformed hscope
    have hsame : NoneSettled (fun _ => False) base new := .of_eq (by rw [heq])
    exact absurd (hquiet hbase (hsame.committed not_false hafter)) hbefore
  | @closed swept base staged _ _ hswept hensured hstaged hclose h =>
    have hbase : Upkeeps K old base :=
      (Expiries.upkeeps K hswept.expiries).trans (hensured.upkeeps trivial)
    have inv' := (Upkeeps.keeps inv hbase).1
    obtain ⟨_, _, _, _, _, _, _, _, heq⟩ := hstaged.eq hlaw inv' hformed hscope
    have hmarked := (Effects.keeps hlaw inv' ((hstaged.effects (K := K) hlaw inv' hformed
      (fun _ _ => trivial) hscope).tail (.close _ entity.workUnit.identityJson))).1
    have hunits : NoneSettled (· = entity.workUnit.identityJson) old
        (staged.markClosing entity.workUnit.identityJson) :=
      ((Upkeeps.noneSettled _ hbase).trans (.of_eq (by rw [heq]))).trans (markClosing_noneSettled _ _)
    have hthere := hstaged.closing_unit hlaw inv' hformed hscope
    cases h with
    | reported =>
      obtain ⟨u, hu, hid, hstate⟩ := hthere
      by_cases hsame : unit = entity.workUnit.identityJson
      · obtain ⟨v, hv, hvid, hvstate⟩ := hafter
        rw [hmarked.staging.unit_eq hv hu (hvid.trans (hsame.trans hid.symm)), hstate] at hvstate
        cases hvstate
      · exact absurd (hunits.committed hsame hafter) hbefore
    | published _ h =>
      have hgathers : Gathers entity.workUnit.nowUnixMs writes entity.workUnit.identityJson old
          (staged.markClosing entity.workUnit.identityJson) :=
        (((hswept.gathers inv hensured (Or.inl rfl)).trans hensured.gathers).trans
          (hstaged.gathers hwrites)).trans .of_workUnits
      exact finishWorkUnitPublication_appears hmarked hthere hunits hgathers h hbefore hafter
  | @joined swept _ _ hswept hensured hclose h =>
    have hsweep := Expiries.upkeeps K hswept.expiries
    cases h with
    | reported => exact absurd (hquiet hsweep hafter) hbefore
    | published _ h =>
      exact finishWorkUnitPublication_appears (Upkeeps.keeps inv hsweep).1 hensured.closing_unit
        (Upkeeps.noneSettled _ hsweep) (hswept.gathers inv hensured (Or.inr rfl)) h hbefore hafter

/-- A publication with resolutions that published a unit. -/
theorem WorkUnitPublished.appears (hlaw : A.Lawful) (inv : Inv A old) {publish : WorkUnitPublish}
    {outcome : Except ProviderError WorkUnitCommitOutcome}
    (hformed : ∀ r ∈ publish.resolutions, r.WellFormed A)
    (hwrites : ∀ r ∈ publish.resolutions, writes r.entity.key)
    (h : WorkUnitPublished clock publish old outcome new)
    (hbefore : ¬ old.Committed unit) (hafter : new.Committed unit) :
    AppearsAtOnce publish.workUnit.nowUnixMs writes unit old new := by
  let K : Known := ⟨fun _ _ => True, fun _ => True, fun _ => False⟩
  cases h with
  | refused h =>
    have hsame := Upkeeps.noneSettled (fun _ => False) (Expiries.upkeeps K h)
    exact absurd (hsame.committed not_false hafter) hbefore
  | @published swept resolved _ conflicts _ hswept hensured hconflicts _ happly hfinish =>
    have hsweep := Expiries.upkeeps K hswept.expiries
    have inv' := (Upkeeps.keeps inv hsweep).1
    obtain ⟨heffects, hresolved⟩ := publishing_resolvedIn (K := K) hlaw inv' hensured hformed
      (fun _ _ _ _ => trivial) hconflicts happly
    have inv'' := (Effects.keeps hlaw inv' heffects).1
    obtain ⟨_, _, _, _, _, heq, -⟩ := hresolved.eq
    have hunits : resolved.workUnits = swept.workUnits := by rw [heq]
    have hthere : resolved.IsClosing publish.workUnit.identityJson := by
      obtain ⟨u, hu, hid, hstate⟩ := hensured.closing_unit
      exact ⟨u, hunits ▸ hu, hid, hstate⟩
    obtain ⟨-, hin, -⟩ := publicationConflicts_spec inv'.staging hconflicts
    have hstaged : ∀ conflict ∈ conflicts, conflict.staged.headVersions ≠ [] := by
      intro conflict hconflict
      rw [(hin conflict hconflict).staged_headVersions]
      exact (hin conflict hconflict).directWorkUnitHeads_ne_nil
    exact finishWorkUnitPublication_appears inv'' hthere
      ((Upkeeps.noneSettled _ hsweep).trans (.of_eq hunits))
      ((hswept.gathers inv hensured (Or.inr rfl)).trans (hresolved.gathers hwrites hformed hstaged))
      hfinish hbefore hafter

end Patchouli
