import Patchouli.Sqlite.Overlay

/-!
# The heads of an entity in a unit

While a unit is open, the heads it has of an entity stay what they are until one of its own commits
replaces them, and then there is a version among them that the unit could not see before. So they
never come back to what they were. For the published heads `Extends` says the same.

## Main definitions

* `Db.SeenIn` — a version that is published or staged by the unit
* `HeadsMove` — the heads are the same, or have a version that was not seen

## Main results

* `Upkeeps.workUnitHeads_eq` — upkeep leaves the heads of a live unit
* `Effects.headsMove`
-/

namespace Patchouli

open Db

variable {A : Automerge} {K : Known} {old mid new : Db} {unit : String} {key : EntityKey}

/-- The entity was captured by the unit. -/
def Db.Captured (db : Db) (unit : String) (key : EntityKey) : Prop :=
  ∃ e ∈ db.unitEntities, e.workUnitJson = unit ∧ e.key = key

theorem captured_iff : old.Captured unit key ↔ (old.unitEntity? unit key).isSome := by
  constructor
  · rintro ⟨e, he, hid, hkey⟩
    rw [unitEntity?, List.find?_isSome]
    exact ⟨e, he, by simp [hid, hkey]⟩
  · exact captured_mem

/-- The unit has the same baseline of the entity. -/
theorem workUnitBaseHeads_congr (inv : Inv A old) (inv' : Inv A new)
    (hbases : ∀ version, (⟨unit, key, version, true⟩ : WorkUnitBaseVersionRow) ∈
      new.unitBaseVersions ↔ ⟨unit, key, version, true⟩ ∈ old.unitBaseVersions) :
    new.workUnitBaseHeads unit key = old.workUnitBaseHeads unit key := by
  have hnodup := fun {db : Db} (inv : Inv A db) =>
    (Table.sorted_perm _).nodup_iff.mp (inv.workUnitBaseHeads_nodup unit key)
  refine Table.sorted_eq_iff.mpr
    ((List.perm_ext_iff_of_nodup (hnodup inv') (hnodup inv)).mpr fun version => ?_)
  have h := hbases version
  rw [← mem_workUnitBaseHeads, ← mem_workUnitBaseHeads] at h
  simpa only [workUnitBaseHeads, Table.mem_sorted] using h

/-- The unit has the same heads of the entity. -/
theorem workUnitHeads_congr (inv : Inv A old) (inv' : Inv A new)
    (hheads : ∀ version, (⟨unit, key, version⟩ : WorkUnitHeadRow) ∈ new.unitHeads ↔
      ⟨unit, key, version⟩ ∈ old.unitHeads)
    (hbases : ∀ version, (⟨unit, key, version, true⟩ : WorkUnitBaseVersionRow) ∈
      new.unitBaseVersions ↔ ⟨unit, key, version, true⟩ ∈ old.unitBaseVersions) :
    new.workUnitHeads unit key = old.workUnitHeads unit key := by
  have hdirect : new.directWorkUnitHeads unit key = old.directWorkUnitHeads unit key := by
    refine Table.sorted_eq_iff.mpr ((List.perm_ext_iff_of_nodup
      (unitHeads_names_nodup inv'.staging.headKeys unit key)
      (unitHeads_names_nodup inv.staging.headKeys unit key)).mpr fun version => ?_)
    have h := hheads version
    rw [← mem_directWorkUnitHeads, ← mem_directWorkUnitHeads] at h
    simpa only [directWorkUnitHeads, Table.mem_sorted] using h
  simp only [workUnitHeads, hdirect, workUnitBaseHeads_congr inv inv' hbases]

/-- A version that is published or staged by the unit. -/
def Db.SeenIn (db : Db) (unit : String) (key : EntityKey) (version : String) : Prop :=
  db.IsPublished key version ∨ db.StagedBy unit key version

theorem Db.SeenIn.hasVersion {version : String} (h : old.SeenIn unit key version) :
    old.HasVersion key version := by
  rcases h with ⟨r, hr, hrkey, hname, -⟩ | ⟨r, hr, -, hrkey, hname⟩ <;> exact ⟨r, hr, hrkey, hname⟩

/-- A head of a unit is a version the unit sees. -/
theorem Db.Inv.seenIn_of_head (inv : Inv A old) {version : String}
    (h : version ∈ old.workUnitHeads unit key) : old.SeenIn unit key version := by
  unfold workUnitHeads at h
  split at h
  · obtain ⟨e, he, hid, hkey⟩ := inv.baseline.entities _ (mem_workUnitBaseHeads.mp h)
    obtain ⟨u, hu, huid, -⟩ := inv.staging.entityUnits e he
    have hrow := (inv.baseline.base e he u hu huid version true).mp
      (by rw [hid, hkey]; exact mem_workUnitBaseHeads.mp h)
    obtain ⟨r, hr, hrkey, hname, hby⟩ := hrow.1
    exact Or.inl ⟨r, hr, hrkey.trans hkey, hname, hby.1⟩
  · obtain ⟨r, hr, hrkey, hname, hunit⟩ :=
      inv.staging.headVersions _ (mem_directWorkUnitHeads.mp h)
    exact hunit.symm.imp (fun hnone => ⟨r, hr, hrkey, hname, hnone⟩)
      fun hown => ⟨r, hr, hown, hrkey, hname⟩

/-- A unit that is live was live. -/
theorem Db.Extends.live_of_live (hext : Extends old new) {u : WorkUnitRow} (hu : u ∈ old.workUnits)
    (hlive : ∀ u' ∈ new.workUnits, u'.identityJson = u.identityJson → u'.Live) : u.Live := by
  obtain ⟨u', hu', hev⟩ := hext.units u hu
  by_contra hdead
  have hstate := hev.final hdead
  have hnow := hlive u' hu' hev.identityJson
  simp only [WorkUnitRow.Live, hstate] at hnow
  exact hdead hnow

theorem Db.Inv.workUnitHeads_nodup (inv : Inv A old) (unit : String) (key : EntityKey) :
    (old.workUnitHeads unit key).Nodup := by
  unfold workUnitHeads
  split
  · exact inv.workUnitBaseHeads_nodup unit key
  · exact Table.sorted_nodup (unitHeads_names_nodup inv.staging.headKeys unit key)

/-! ### Upkeep -/

/-- What was captured stays captured. -/
theorem Upkeep.captured (h : Upkeep K old new) (hcaptured : old.Captured unit key) :
    new.Captured unit key := by
  cases h with
  | sessions => exact hcaptured
  | forget => exact hcaptured
  | note => exact hcaptured
  | prune => exact hcaptured
  | openUnit => exact hcaptured
  | expire h =>
    obtain ⟨-, -, -, h⟩ := h
    obtain ⟨rfl, -⟩ := expireWorkUnit_spec h
    exact hcaptured
  | capture _ _ _ h =>
    obtain ⟨entities, bases, rfl, -, -⟩ := captureWorkUnitEntity_frame h
    obtain ⟨e, he, hid, hkey⟩ := hcaptured
    exact ⟨e, List.mem_append_left _ he, hid, hkey⟩

theorem Upkeeps.captured (h : Upkeeps K old new) (hcaptured : old.Captured unit key) :
    new.Captured unit key := by
  induction h with
  | refl => exact hcaptured
  | tail _ hstep ih => exact hstep.captured ih

/-- Upkeep leaves the heads of a live unit. -/
theorem Upkeep.workUnitHeads_eq (inv : Inv A old) (h : Upkeep K old new)
    (hcaptured : old.Captured unit key)
    (hlive : ∀ u ∈ new.workUnits, u.identityJson = unit → u.Live) :
    new.workUnitHeads unit key = old.workUnitHeads unit key := by
  have inv' := (h.keeps inv).1
  cases h with
  | sessions => rfl
  | forget => rfl
  | note => rfl
  | prune => rfl
  | openUnit => rfl
  | expire h =>
    obtain ⟨hover, hoverLive, -, h⟩ := h
    rename_i row now
    obtain ⟨rfl, -⟩ := expireWorkUnit_spec h
    have hne : row.identityJson ≠ unit := by
      intro hid
      have hdead := hlive { row with state := .expired, closedAtUnixMs := some now }
        (List.mem_map.mpr ⟨row, hover, by rw [if_pos ⟨rfl, hoverLive⟩]⟩) hid
      simp [WorkUnitRow.Live] at hdead
    refine workUnitHeads_congr inv inv' (fun version => ?_) fun version => Iff.rfl
    refine ⟨fun hhead => (List.mem_filter.mp hhead).1, fun hhead => ?_⟩
    refine List.mem_filter.mpr ⟨hhead, decide_eq_true ?_⟩
    obtain ⟨r, hr, hrkey, hname, hunit⟩ := inv.staging.headVersions _ hhead
    rw [← hrkey, ← hname]
    refine inv.staging.not_stagedBy hr fun hown => ?_
    rcases hunit with hunit | hunit <;> rw [hown] at hunit
    · exact hne (Option.some.inj hunit)
    · cases hunit
  | @capture _ row k hrow hopen hscope h =>
    unfold captureWorkUnitEntity at h
    split at h
    · rw [Except.ok.injEq] at h
      rw [h]
    · rename_i hnew
      split at h
      · cases h
      · rw [Except.ok.injEq] at h
        subst h
        refine workUnitHeads_congr inv inv' (fun _ => Iff.rfl) fun version => ?_
        refine ⟨fun hbase => ?_, fun hbase => List.mem_append_left _ hbase⟩
        refine (List.mem_append.mp hbase).elim id fun hadded => ?_
        obtain ⟨r, -, hr⟩ := List.mem_map.mp hadded
        simp only [WorkUnitBaseVersionRow.mk.injEq] at hr
        rw [hr.1, hr.2.1] at hnew
        exact absurd (captured_iff.mp hcaptured) hnew

theorem Upkeeps.workUnitHeads_eq (inv : Inv A old) (h : Upkeeps K old new)
    (hcaptured : old.Captured unit key)
    (hlive : ∀ u ∈ new.workUnits, u.identityJson = unit → u.Live) :
    new.workUnitHeads unit key = old.workUnitHeads unit key := by
  induction h with
  | refl => rfl
  | @tail mid new hbefore hstep ih =>
    obtain ⟨inv', hext⟩ := Upkeeps.keeps inv hbefore
    rw [hstep.workUnitHeads_eq inv' (Upkeeps.captured hbefore hcaptured) hlive]
    exact ih fun u hu hid => (hstep.keeps inv').2.live_of_live hu
      fun u' hu' hid' => hlive u' hu' (hid'.trans hid)

/-! ### Runs -/

/-- The heads of the entity in the unit are the same, or have a version that was not seen. -/
def HeadsMove (unit : String) (key : EntityKey) (old new : Db) : Prop :=
  new.workUnitHeads unit key = old.workUnitHeads unit key ∨
    ∃ version ∈ new.workUnitHeads unit key, ¬ old.SeenIn unit key version

/-- What a unit sees it sees as long as it does not expire. -/
theorem Db.Extends.seenIn (hext : Extends old new) {version : String}
    (hlive : ∀ u ∈ new.workUnits, u.identityJson = unit → u.Live)
    (h : old.SeenIn unit key version) : new.SeenIn unit key version := by
  rcases h with hpublished | ⟨r, hr, hown, hrkey, hname⟩
  · exact Or.inl (hext.isPublished hpublished)
  · rcases hext.staged r hr unit hown with hkept | ⟨cursor, hnow⟩ | ⟨u, hu, hid, hexpired⟩
    · exact Or.inr ⟨r, hkept, hown, hrkey, hname⟩
    · exact Or.inl ⟨_, hnow, hrkey, hname, rfl⟩
    · rcases hlive u hu hid with hstate | hstate <;> rw [hexpired] at hstate <;> cases hstate

/-- Heads of another entity, or of another unit, are replaced. -/
theorem workUnitHeads_of_replaced (inv : Inv A old) (inv' : Inv A new) {id : String}
    {k : EntityKey} {heads : List String} (hother : ¬ (unit = id ∧ key = k))
    (hheads : new.unitHeads = (old.unitHeads.filter fun head =>
        ¬ (head.workUnitJson = id ∧ head.key = k)) ++
      (Table.sorted heads).map fun version => ⟨id, k, version⟩)
    (hbases : new.unitBaseVersions = old.unitBaseVersions) :
    new.workUnitHeads unit key = old.workUnitHeads unit key := by
  refine workUnitHeads_congr inv inv' (fun version => ?_) fun version => by rw [hbases]
  rw [hheads, StagingInv.mem_replaced]
  exact ⟨fun h => h.elim And.left fun hown => absurd ⟨hown.1, hown.2.1⟩ hother,
    fun h => Or.inl ⟨h, hother⟩⟩

/-- The heads that replaced the heads of the entity in the unit. -/
theorem workUnitHeads_replaced (inv : StagingInv old) {heads : List String} (hnodup : heads.Nodup)
    (hne : heads ≠ [])
    (h : new.unitHeads = (old.unitHeads.filter fun head =>
        ¬ (head.workUnitJson = unit ∧ head.key = key)) ++
      (Table.sorted heads).map fun version => ⟨unit, key, version⟩) :
    new.workUnitHeads unit key = Table.sorted heads := by
  have hdirect := directWorkUnitHeads_replaced hnodup inv h unit key
  rw [if_pos ⟨rfl, rfl⟩] at hdirect
  have hsome : Table.sorted heads ≠ [] := by
    intro hnil
    have := (Table.sorted_perm heads).length_eq
    rw [hnil] at this
    exact hne (List.length_eq_zero_iff.mp this.symm)
  rw [workUnitHeads, hdirect, if_neg hsome]

theorem Effect.captured (hlaw : A.Lawful) (inv : Inv A old) (h : Effect A K old new)
    (hcaptured : old.Captured unit key) : new.Captured unit key := by
  have hcaptured' := hcaptured
  obtain ⟨e, he, hid, hkey⟩ := hcaptured
  cases h with
  | upkeep h => exact h.captured hcaptured'
  | commit hformed _ h =>
    obtain ⟨-, ⟨_, _, _, _, _, _, _, _, _, _, _, rfl⟩, -⟩ :=
      commitEntityInTransaction_spec hlaw inv.crdt hformed.genuine h
    exact hcaptured'
  | record _ h =>
    rw [insertIdempotency_eq h]
    exact hcaptured'
  | @stage _ u staged recordedAt hunit hsame hstate hformed _ hheads h =>
    have hcrdt : CrdtInv A (old.recordStagedMutation staged) :=
      inv.crdt.congr (fun _ _ h => h) rfl rfl rfl
    obtain ⟨mid, hinsert, hreplace⟩ := Except.bind_eq_ok.mp h
    obtain ⟨⟨_, _, _, rfl⟩, -⟩ := stage_spec hlaw hcrdt hformed.genuine hinsert hreplace
    refine ⟨_, List.mem_map_of_mem he, ?_, ?_⟩ <;> split <;> assumption
  | stageRecord _ _ _ h =>
    rw [insertWorkUnitIdempotency_eq h]
    exact hcaptured'
  | close identity => exact hcaptured'
  | resolve hunit hclosing _ _ hgenuine _ hinsert h =>
    obtain ⟨⟨_, _, _, rfl⟩, -⟩ := stage_spec hlaw inv.crdt hgenuine hinsert h
    exact hcaptured'
  | @publish _ u recordedAt hunit hclosing h =>
    obtain ⟨mid, -, hpublished, -, -, -, rfl⟩ :=
      finishWorkUnitPublication_spec inv hunit (Or.inr hclosing) h
    exact ⟨e, hpublished.unitEntities_eq ▸ he, hid, hkey⟩

theorem Effects.captured (hlaw : A.Lawful) (inv : Inv A old) (h : Effects A K old new)
    (hcaptured : old.Captured unit key) : new.Captured unit key := by
  induction h with
  | refl => exact hcaptured
  | tail hbefore hstep ih => exact hstep.captured hlaw (Effects.keeps hlaw inv hbefore).1 ih

/-- While a unit is open, an effect moves the heads it has of an entity forward or not at all. -/
theorem Effect.headsMove (hlaw : A.Lawful) (inv : Inv A old) (h : Effect A K old new)
    (hcaptured : old.Captured unit key)
    (hopen : ∀ u ∈ new.workUnits, u.identityJson = unit → u.state = .opened) :
    HeadsMove unit key old new := by
  have inv' := (h.keeps hlaw inv).1
  cases h with
  | upkeep h =>
    exact Or.inl (h.workUnitHeads_eq inv hcaptured fun u hu hid => Or.inl (hopen u hu hid))
  | commit hformed _ h =>
    obtain ⟨-, ⟨_, _, _, _, _, _, _, _, _, _, _, rfl⟩, -⟩ :=
      commitEntityInTransaction_spec hlaw inv.crdt hformed.genuine h
    exact Or.inl rfl
  | record _ h =>
    rw [insertIdempotency_eq h]
    exact Or.inl rfl
  | @stage _ u staged recordedAt hunit hid hstate hformed _ hheads h =>
    have hcrdt : CrdtInv A (old.recordStagedMutation staged) :=
      inv.crdt.congr (fun _ _ h => h) rfl rfl rfl
    obtain ⟨mid, hinsert, hreplace⟩ := Except.bind_eq_ok.mp h
    obtain ⟨⟨_, _, _, rfl⟩, hnodup, hne, -, -, -, -, hfresh, -⟩ :=
      stage_spec hlaw hcrdt hformed.genuine hinsert hreplace
    by_cases hsame : unit = staged.workUnit.identityJson ∧ key = staged.entity.key
    · obtain ⟨rfl, rfl⟩ := hsame
      obtain ⟨version, hversion, hnew⟩ := hformed.new
      obtain ⟨v, hv, rfl⟩ := List.mem_map.mp hnew
      refine Or.inr ⟨v.version, ?_, ?_⟩
      · rw [workUnitHeads_replaced inv.staging hnodup hne rfl]
        exact Table.mem_sorted.mpr hversion
      · exact fun hseen => (hfresh v hv).1 hseen.hasVersion
    · exact Or.inl (workUnitHeads_of_replaced inv inv' hsame rfl rfl)
  | stageRecord _ _ _ h =>
    rw [insertWorkUnitIdempotency_eq h]
    exact Or.inl rfl
  | close identity => exact Or.inl rfl
  | @resolve mid _ u k versions heads recordedAt hunit hclosing hhead hnew hgenuine _ hinsert h =>
    obtain ⟨⟨_, _, _, rfl⟩, -⟩ := stage_spec hlaw inv.crdt hgenuine hinsert h
    refine Or.inl (workUnitHeads_of_replaced inv inv' ?_ rfl rfl)
    rintro ⟨hid, -⟩
    have hstate := hopen u hunit hid.symm
    rw [hclosing] at hstate
    cases hstate
  | @publish _ u recordedAt hunit hclosing h =>
    obtain ⟨mid, -, hpublished, -, -, -, rfl⟩ :=
      finishWorkUnitPublication_spec inv hunit (Or.inr hclosing) h
    refine Or.inl (workUnitHeads_congr inv inv' (fun version => ?_) fun version => ?_)
    · show _ ∈ mid.unitHeads ↔ _
      rw [hpublished.unitHeads_eq]
    · show _ ∈ mid.unitBaseVersions ↔ _
      rw [hpublished.unitBaseVersions_eq]

/-- A unit that is open was open. -/
theorem Db.Extends.opened_of_opened (hext : Extends old new) {u : WorkUnitRow}
    (hu : u ∈ old.workUnits)
    (hopen : ∀ u' ∈ new.workUnits, u'.identityJson = u.identityJson → u'.state = .opened) :
    u.state = .opened := by
  obtain ⟨u', hu', hev⟩ := hext.units u hu
  have hnow := hopen u' hu' hev.identityJson
  rcases hev.state with heq | hwas | ⟨-, hne⟩
  · exact heq.symm.trans hnow
  · exact hwas
  · exact absurd hnow hne

/-- **The heads of an entity in an open unit** move forward or not at all. -/
theorem Effects.headsMove (hlaw : A.Lawful) (inv : Inv A old) (h : Effects A K old new)
    (hcaptured : old.Captured unit key)
    (hopen : ∀ u ∈ new.workUnits, u.identityJson = unit → u.state = .opened) :
    HeadsMove unit key old new := by
  induction h with
  | refl => exact Or.inl rfl
  | @tail mid new hbefore hstep ih =>
    obtain ⟨inv', hext⟩ := Effects.keeps hlaw inv hbefore
    have hopen' : ∀ u ∈ mid.workUnits, u.identityJson = unit → u.state = .opened :=
      fun u hu hid => (hstep.keeps hlaw inv').2.opened_of_opened hu
        fun u' hu' hid' => hopen u' hu' (hid'.trans hid)
    rcases hstep.headsMove hlaw inv' (Effects.captured hlaw inv hbefore hcaptured) hopen with
      heq | ⟨version, hversion, hunseen⟩
    · unfold HeadsMove
      rw [heq]
      exact ih hopen'
    · refine Or.inr ⟨version, hversion, fun hseen => hunseen (hext.seenIn ?_ hseen)⟩
      exact fun u hu hid => Or.inl (hopen' u hu hid)

/-! ### Commits in a unit -/

/-- Upkeep stores no versions. -/
theorem Upkeep.hasVersion (h : Upkeep K old new) {version : String}
    (hnew : new.HasVersion key version) : old.HasVersion key version := by
  cases h with
  | sessions => exact hnew
  | forget => exact hnew
  | note => exact hnew
  | prune => exact hnew
  | openUnit => exact hnew
  | expire h =>
    obtain ⟨-, -, -, h⟩ := h
    obtain ⟨rfl, -⟩ := expireWorkUnit_spec h
    obtain ⟨r, hr, hrkey, hname⟩ := hnew
    exact ⟨r, (List.mem_filter.mp hr).1, hrkey, hname⟩
  | capture _ _ _ h =>
    obtain ⟨_, _, rfl⟩ := captureWorkUnitEntity_eq h
    exact hnew

theorem Upkeeps.hasVersion (h : Upkeeps K old new) {version : String}
    (hnew : new.HasVersion key version) : old.HasVersion key version := by
  induction h with
  | refl => exact hnew
  | tail _ hstep ih => exact ih (hstep.hasVersion hnew)

/-- A publication stores no versions. -/
theorem finishWorkUnitPublication_hasVersion (inv : Inv A old) {u : WorkUnitRow} {recordedAt : ℕ}
    (hu : u ∈ old.workUnits) (hlive : u.Live)
    (h : old.finishWorkUnitPublication u.identityJson recordedAt = .ok new) {version : String}
    (hnew : new.HasVersion key version) : old.HasVersion key version := by
  obtain ⟨mid, -, hpublished, -, -, -, rfl⟩ := finishWorkUnitPublication_spec inv hu hlive h
  obtain ⟨r, hr, hrkey, hname⟩ := hnew
  rcases hpublished.from_old r hr with ⟨hold, -⟩ | ⟨r', hold, -, -, cursor, rfl⟩
  · exact ⟨r, hold, hrkey, hname⟩
  · exact ⟨r', hold, hrkey, hname⟩

theorem ClosedBy.workUnitHeads_eq (inv : Inv A old) {entity : WorkUnitCommit}
    {outcome : WorkUnitCommitOutcome} (hclosing : ∃ u ∈ old.workUnits,
      u.identityJson = entity.workUnit.identityJson ∧ u.state = .closing)
    (h : ClosedBy entity old outcome new) :
    new.workUnitHeads unit key = old.workUnitHeads unit key := by
  obtain ⟨u, hu, hid, hstate⟩ := hclosing
  cases h with
  | reported => rfl
  | published _ h =>
    rw [← hid] at h
    have inv' := (inv.publish hu hstate h).1
    obtain ⟨mid, -, hpublished, -, -, -, rfl⟩ :=
      finishWorkUnitPublication_spec inv hu (Or.inr hstate) h
    refine workUnitHeads_congr inv inv' (fun version => ?_) fun version => ?_
    · show _ ∈ mid.unitHeads ↔ _
      rw [hpublished.unitHeads_eq]
    · show _ ∈ mid.unitBaseVersions ↔ _
      rw [hpublished.unitBaseVersions_eq]

/-- What a commit in an open unit replaces, and by what. -/
theorem StagedIn.workUnitHeads (hlaw : A.Lawful) (inv : Inv A old) {entity : WorkUnitCommit}
    (hformed : entity.entity.WellFormed A)
    (hscope : entity.workUnit.scopeJson = entity.entity.key.scopeJson)
    (h : StagedIn entity old new)
    (hcaptured : old.Captured entity.workUnit.identityJson entity.entity.key) :
    old.workUnitHeads entity.workUnit.identityJson entity.entity.key =
        Table.sorted entity.entity.expectedHeads ∧
      new.workUnitHeads entity.workUnit.identityJson entity.entity.key =
        Table.sorted entity.entity.headVersions ∧
      ∃ version ∈ entity.entity.headVersions, version ∉ entity.entity.expectedHeads := by
  obtain ⟨recordedAt, _, _, _, _, _, _, _, heq⟩ := h.eq hlaw inv hformed hscope
  obtain ⟨hunit, hid, huscope, hopen, hcapture, hheads, hstage, -⟩ := h
  rename_i unit captured staged recordedAt'
  rw [captureWorkUnitEntity, ← hid, if_pos (captured_iff.mp hcaptured), Except.ok.injEq] at hcapture
  subst hcapture
  have hcrdt : CrdtInv A (old.recordStagedMutation entity) :=
    inv.crdt.congr (fun _ _ h => h) rfl rfl rfl
  obtain ⟨mid, hinsert, hreplace⟩ := Except.bind_eq_ok.mp hstage
  obtain ⟨-, hnodup, hne, -, -, -, -, hfresh, -⟩ :=
    stage_spec hlaw hcrdt hformed.genuine hinsert hreplace
  refine ⟨hid ▸ hheads, workUnitHeads_replaced inv.staging hnodup hne (by rw [heq]), ?_⟩
  obtain ⟨version, hversion, hnew⟩ := hformed.new
  obtain ⟨v, hv, rfl⟩ := List.mem_map.mp hnew
  refine ⟨v.version, hversion, fun hexpected => (hfresh v hv).1 ?_⟩
  have hhead : v.version ∈ old.workUnitHeads unit.identityJson entity.entity.key := by
    rw [hheads]
    exact Table.mem_sorted.mpr hexpected
  exact (inv.seenIn_of_head hhead).hasVersion

/-- A commit staged in a unit that a call found open, next to the tables before the call. -/
theorem StagedIn.replaces (hlaw : A.Lawful) (inv : Inv A old) {clock : Clock}
    {entity : WorkUnitCommit} (hformed : entity.entity.WellFormed A)
    (hscope : entity.workUnit.scopeJson = entity.entity.key.scopeJson)
    (hcaptured : old.Captured entity.workUnit.identityJson entity.entity.key) {swept base staged : Db}
    (hswept : Swept clock.sweep old swept) (hensured : Ensured swept entity.workUnit .opened base)
    (hstaged : StagedIn entity base staged) :
    Inv A base ∧
      (∀ u ∈ old.workUnits, u.identityJson = entity.workUnit.identityJson → u.state = .opened) ∧
      old.workUnitHeads entity.workUnit.identityJson entity.entity.key =
        Table.sorted entity.entity.expectedHeads ∧
      staged.workUnitHeads entity.workUnit.identityJson entity.entity.key =
        Table.sorted entity.entity.headVersions ∧
      ∃ version ∈ entity.entity.headVersions, version ∉ entity.entity.expectedHeads := by
  have hbase : Upkeeps Known.anything old base :=
    (hswept.expiries.upkeeps _).trans (hensured.upkeeps trivial)
  obtain ⟨inv', hext⟩ := hbase.keeps inv
  obtain ⟨v, hv, hvid, -, hvopen, -⟩ := hensured.open_unit
  have hopen : ∀ u ∈ base.workUnits, u.identityJson = entity.workUnit.identityJson →
      u.state = .opened := by
    intro u hu hid
    rw [inv'.staging.unit_eq hu hv (hid.trans hvid.symm)]
    exact hvopen
  obtain ⟨hheads, hreplaced⟩ := hstaged.workUnitHeads hlaw inv' hformed hscope
    (Upkeeps.captured hbase hcaptured)
  refine ⟨inv', fun u hu hid => hext.opened_of_opened hu fun u' hu' hid' =>
    hopen u' hu' (hid'.trans hid), ?_, hreplaced⟩
  rw [← Upkeeps.workUnitHeads_eq inv hbase hcaptured fun u hu hid => Or.inl (hopen u hu hid)]
  exact hheads

/-- What becomes of the heads of the unit when it closes: nothing. -/
theorem StagedIn.closed_workUnitHeads (hlaw : A.Lawful) (inv : Inv A old) {entity : WorkUnitCommit}
    (hformed : entity.entity.WellFormed A)
    (hscope : entity.workUnit.scopeJson = entity.entity.key.scopeJson)
    {staged : Db} (hstaged : StagedIn entity old staged) {outcome : WorkUnitCommitOutcome}
    (h : ClosedBy entity (staged.markClosing entity.workUnit.identityJson) outcome new) :
    new.workUnitHeads unit key = staged.workUnitHeads unit key := by
  have heffects : Effects A Known.anything old (staged.markClosing entity.workUnit.identityJson) :=
    (hstaged.effects hlaw inv hformed (fun _ _ => trivial) hscope).tail (.close staged _)
  have hclosed : new.workUnitHeads unit key =
      (staged.markClosing entity.workUnit.identityJson).workUnitHeads unit key :=
    h.workUnitHeads_eq (Effects.keeps hlaw inv heffects).1
      (hstaged.closing_unit hlaw inv hformed hscope)
  exact hclosed

/-- **A commit in a unit that stores a version** finds the unit open, with the heads the commit
expects, and leaves it with the heads of the commit, one of which is new. -/
theorem WorkUnitCommitted.replaces (hlaw : A.Lawful) (inv : Inv A old) {clock : Clock}
    {entity : WorkUnitCommit} {outcome : Except ProviderError WorkUnitCommitOutcome}
    (hformed : entity.entity.WellFormed A)
    (hscope : entity.workUnit.scopeJson = entity.entity.key.scopeJson)
    (hcaptured : old.Captured entity.workUnit.identityJson entity.entity.key)
    (h : WorkUnitCommitted clock entity old outcome new) {version : String}
    (hbefore : ¬ old.HasVersion key version) (hafter : new.HasVersion key version) :
    (∀ u ∈ old.workUnits, u.identityJson = entity.workUnit.identityJson → u.state = .opened) ∧
      old.workUnitHeads entity.workUnit.identityJson entity.entity.key =
        Table.sorted entity.entity.expectedHeads ∧
      new.workUnitHeads entity.workUnit.identityJson entity.entity.key =
        Table.sorted entity.entity.headVersions ∧
      ∃ version ∈ entity.entity.headVersions, version ∉ entity.entity.expectedHeads := by
  cases h with
  | failed h => exact absurd ((h.upkeeps Known.nothing).hasVersion hafter) hbefore
  | refused h => exact absurd ((h.upkeeps Known.nothing).hasVersion hafter) hbefore
  | staged hswept hensured hstaged =>
    exact (hstaged.replaces hlaw inv hformed hscope hcaptured hswept hensured).2
  | @closed swept base staged _ outcome hswept hensured hstaged _ h =>
    obtain ⟨inv', hopen, hheads, hreplaced, hnew⟩ :=
      hstaged.replaces hlaw inv hformed hscope hcaptured hswept hensured
    refine ⟨hopen, hheads, ?_, hnew⟩
    rw [hstaged.closed_workUnitHeads hlaw inv' hformed hscope h]
    exact hreplaced
  | @joined swept _ outcome hswept hensured _ h =>
    have inv' := (hswept.expiries.keeps inv).1
    obtain ⟨u, hu, hid, hstate⟩ := hensured.closing_unit
    refine absurd ((hswept.expiries.upkeeps Known.nothing).hasVersion ?_) hbefore
    cases h with
    | reported => exact hafter
    | published _ h =>
      rw [← hid] at h
      exact finishWorkUnitPublication_hasVersion inv' hu (Or.inr hstate) h hafter

end Patchouli
