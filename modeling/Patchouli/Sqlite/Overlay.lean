import Patchouli.Sqlite.Log
import Patchouli.Sqlite.Served

/-!
# What a unit sees

The baseline of a unit is rebuilt from head history and publication cursors whenever the unit first
meets an entity, while the tables go on. It is nevertheless what was published when the unit was
opened: history up to a cursor never changes, and a version published later has a later cursor.

Over its baseline a unit sees what it staged. As long as it is open, each of its heads is a version
it staged or one of its baseline, so every head it is told of comes with its version.

## Main definitions

* `Db.OpenHeads` — an open unit has the versions of its heads

## Main results

* `readWorkUnitSnapshot_unstaged` — an entity a unit has not staged, as it was published
* `mem_readWorkUnitSnapshot` — the versions of a snapshot: the baseline and what is staged
* `Effects.openHeads`
-/

namespace Patchouli

open Db

variable {A : Automerge} {K : Known} {db old new : Db} {key : EntityKey} {unit : String}

/-! ### Snapshots -/

instance : Std.Total recordedBefore where
  total r s := by
    unfold recordedBefore
    rcases Nat.lt_trichotomy r.recordedAtUnixMs s.recordedAtUnixMs with h | h | h
    · exact Or.inl (Or.inl h)
    · rcases le_total r.version s.version with hle | hle
      · exact Or.inl (Or.inr ⟨h, hle⟩)
      · exact Or.inr (Or.inr ⟨h.symm, hle⟩)
    · exact Or.inr (Or.inl h)

instance : IsTrans EntityVersionRow recordedBefore where
  trans r s t hrs hst := by
    unfold recordedBefore at *
    rcases hrs with h | ⟨h, hle⟩ <;> rcases hst with h' | ⟨h', hle'⟩
    · exact Or.inl (h.trans h')
    · exact Or.inl (h'.symm ▸ h)
    · exact Or.inl (h.symm ▸ h')
    · exact Or.inr ⟨h.trans h', hle.trans hle'⟩

theorem recordedBefore_antisymm {r s : EntityVersionRow} (h : recordedBefore r s)
    (h' : recordedBefore s r) : r.version = s.version := by
  unfold recordedBefore at h h'
  rcases h with hlt | ⟨heq, hle⟩ <;> rcases h' with hlt' | ⟨heq', hle'⟩
  · omega
  · omega
  · omega
  · exact le_antisymm hle hle'

theorem mem_snapshotVersions {visible : EntityVersionRow → Bool} {version : StoredEntityVersion} :
    version ∈ db.snapshotVersions visible ↔
      ∃ r ∈ db.versions, visible r = true ∧ db.storedVersion r = version := by
  simp only [snapshotVersions, List.mem_map, List.mem_insertionSort, List.mem_filter, and_assoc]

/-- Two snapshots of an entity that show the same rows, with the same fields, are the same. -/
theorem snapshotVersions_eq {visible visible' : EntityVersionRow → Bool} (hold : VersionKeys old)
    (hnew : VersionKeys new) (hkey : ∀ r ∈ new.versions, visible' r = true → r.key = key)
    (hrows : ∀ r, r ∈ old.versions ∧ visible r = true ↔ r ∈ new.versions ∧ visible' r = true)
    (hfields : ∀ r ∈ new.versions, visible' r = true →
      new.readCrdtFields r.key r.version = old.readCrdtFields r.key r.version) :
    new.snapshotVersions visible' = old.snapshotVersions visible := by
  have hsorted : (new.versions.filter visible').insertionSort recordedBefore =
      (old.versions.filter visible).insertionSort recordedBefore := by
    refine Table.sortedResult_eq ?_ (hnew.of_map.filter _) (hold.of_map.filter _) fun r => ?_
    · intro r hr s hs hrs hsr
      rw [List.mem_filter] at hr hs
      exact hnew.eq hr.1 hs.1 ((hkey r hr.1 hr.2).trans (hkey s hs.1 hs.2).symm)
        (recordedBefore_antisymm hrs hsr)
    · rw [List.mem_filter, List.mem_filter]
      exact (hrows r).symm
  unfold snapshotVersions
  rw [hsorted]
  refine List.map_congr_left fun r hr => ?_
  rw [List.mem_insertionSort, List.mem_filter, hrows] at hr
  simp only [storedVersion, hfields r hr.1 hr.2]

/-! ### Published rows -/

theorem Db.Inv.publishedCursor_isSome (inv : Inv A db) {r : EntityVersionRow}
    (hr : r ∈ db.versions) : r.publishedCursor.isSome = true ↔ r.workUnitJson = none := by
  constructor
  · intro hsome
    cases hunit : r.workUnitJson with
    | none => rfl
    | some unit => simp [(inv.staging.staged r hr unit hunit).1] at hsome
  · intro hnone
    obtain ⟨-, cursor, hcursor, -⟩ := inv.published.published r hr hnone
    simp [hcursor]

/-- The published heads are those at the frontier. -/
theorem Db.PublishedInv.mem_publishedHeads_iff (inv : PublishedInv db) {version : String} :
    version ∈ db.publishedHeads key ↔
      version ∈ db.headsAt key (db.currentScopeCursor key.scopeJson) := by
  rw [mem_publishedHeads, inv.newest]
  have hsame : db.headsAt key db.lastCursor =
      db.headsAt key (db.currentScopeCursor key.scopeJson) := by
    refine headsAt_congr fun h hh hkey => ?_
    have hle := (inv.history h hh).1
    rw [hkey] at hle
    exact ⟨fun _ => hle, fun h' => h'.trans (inv.frontier _)⟩
  rw [hsame]

/-! ### The baseline -/

/-- **What is published is a matter of the frontier**: later tables with the same frontier have the
same published snapshots. -/
theorem readEntitySnapshot_eq (inv : Inv A old) (inv' : Inv A new) (hext : Extends old new)
    (hfrontier : new.currentScopeCursor key.scopeJson = old.currentScopeCursor key.scopeJson) :
    new.readEntitySnapshot key = old.readEntitySnapshot key := by
  have hrows : ∀ r : EntityVersionRow, r.key = key → r.workUnitJson = none →
      (r ∈ new.versions ↔ r ∈ old.versions) := by
    rintro r rfl hnone
    refine ⟨fun hr => ?_, fun hr => hext.published r hr hnone⟩
    rcases hext.later r hr hnone with hold | ⟨cursor, hcursor, hlater⟩
    · exact hold
    · obtain ⟨-, cursor', hcursor', hle⟩ := inv'.published.published r hr hnone
      obtain rfl := Option.some.inj (hcursor.symm.trans hcursor')
      rw [hfrontier] at hle
      exact absurd (hle.trans (inv.published.frontier _)) (Nat.not_le.mpr hlater)
  have hheads : new.publishedHeads key = old.publishedHeads key := by
    refine (hext.moves key).resolve_right ?_
    rintro ⟨version, hversion, hno⟩
    obtain ⟨r, hr, hkey, hname, hnone⟩ := inv'.published.isPublished (mem_publishedHeads.mp hversion)
    exact hno ⟨r, (hrows r hkey hnone).mp hr, hkey, hname, hnone⟩
  let visible : EntityVersionRow → Bool := fun row => row.key = key ∧ row.publishedCursor.isSome
  have hkeys : ∀ r ∈ new.versions, visible r = true → r.key = key :=
    fun _ _ hvis => (of_decide_eq_true hvis).1
  suffices hversions : new.snapshotVersions visible = old.snapshotVersions visible by
    unfold readEntitySnapshot
    rw [hheads, hversions]
  refine snapshotVersions_eq inv.staging.versionKeys inv'.staging.versionKeys hkeys
    (fun r => ?_) fun r hr hvis => ?_
  · simp only [visible, decide_eq_true_eq]
    constructor
    · rintro ⟨hr, hkey, hsome⟩
      exact ⟨(hrows r hkey ((inv.publishedCursor_isSome hr).mp hsome)).mpr hr, hkey, hsome⟩
    · rintro ⟨hr, hkey, hsome⟩
      exact ⟨(hrows r hkey ((inv'.publishedCursor_isSome hr).mp hsome)).mp hr, hkey, hsome⟩
  · obtain ⟨hkey, hsome⟩ := of_decide_eq_true hvis
    have hnone := (inv'.publishedCursor_isSome hr).mp hsome
    exact hext.fields r ((hrows r hkey hnone).mp hr) hnone

theorem readWorkUnitSnapshot_heads {snapshot : EntitySnapshot}
    (h : db.readWorkUnitSnapshot unit key = some snapshot) :
    snapshot.headVersions = db.workUnitHeads unit key := by
  unfold readWorkUnitSnapshot at h
  split at h
  · cases h
  · rw [Option.some.injEq] at h
    rw [← h]

/-- The state of an entity as a unit shows it over published tables: what the unit has staged, on top
of what they say. -/
structure Db.Overlays (base new : Db) (unit : String) (key : EntityKey)
    (value : Option EntitySnapshot) : Prop where
  unstaged : ¬ new.HasUnitHeads unit key → value = base.readEntitySnapshot key
  staged : new.HasUnitHeads unit key → ∃ snapshot, value = some snapshot ∧
    snapshot.headVersions = new.directWorkUnitHeads unit key ∧ ∀ version,
      version ∈ snapshot.versions ↔
        (∃ r ∈ base.versions, r.key = key ∧ r.workUnitJson = none ∧ base.storedVersion r = version) ∨
          ∃ r ∈ new.versions, r.key = key ∧ r.workUnitJson = some unit ∧
            new.storedVersion r = version

section Baseline

variable {u : WorkUnitRow}

/-- A published row of the baseline was published when the unit was opened. -/
theorem publishedBy_iff (inv : Inv A old) (hext : Extends old new)
    (hbaseline : u.baselineCursor = old.currentScopeCursor key.scopeJson) {r : EntityVersionRow}
    (hkey : r.key = key) :
    r ∈ new.versions ∧ PublishedBy r u.baselineCursor ↔
      r ∈ old.versions ∧ r.workUnitJson = none := by
  constructor
  · rintro ⟨hr, hnone, cursor, hcursor, hle⟩
    refine ⟨(hext.later r hr hnone).resolve_right ?_, hnone⟩
    rintro ⟨later, hlater, hlt⟩
    rw [hcursor, Option.some.injEq] at hlater
    have hfrontier := inv.published.frontier key.scopeJson
    omega
  · rintro ⟨hr, hnone⟩
    refine ⟨hext.published r hr hnone, ?_⟩
    have hby := inv.published.published r hr hnone
    rw [hkey] at hby
    rw [hbaseline]
    exact hby

/-- The heads of the baseline are the heads there were when the unit was opened. -/
theorem headsAt_baseline (inv : Inv A old) (hext : Extends old new)
    (hbaseline : u.baselineCursor = old.currentScopeCursor key.scopeJson) {version : String} :
    version ∈ new.headsAt key u.baselineCursor ↔ version ∈ old.publishedHeads key := by
  rw [inv.published.mem_publishedHeads_iff, hbaseline,
    hext.headsAt key _ (inv.published.frontier key.scopeJson)]

theorem captured_mem (h : (new.unitEntity? unit key).isSome) :
    ∃ e ∈ new.unitEntities, e.workUnitJson = unit ∧ e.key = key := by
  obtain ⟨e, he⟩ := Option.isSome_iff_exists.mp h
  have hfound := List.find?_some he
  simp only [decide_eq_true_eq] at hfound
  exact ⟨e, List.mem_of_find?_eq_some he, hfound⟩

/-- The base rows of a captured entity. -/
theorem Db.Inv.baseRow_iff (inv : Inv A new) (hu : u ∈ new.workUnits)
    (hcaptured : (new.unitEntity? u.identityJson key).isSome) {version : String} {isHead : Bool} :
    ⟨u.identityJson, key, version, isHead⟩ ∈ new.unitBaseVersions ↔
      (∃ r ∈ new.versions, r.key = key ∧ r.version = version ∧ PublishedBy r u.baselineCursor) ∧
        isHead = decide (version ∈ new.headsAt key u.baselineCursor) := by
  obtain ⟨e, he, hid, rfl⟩ := captured_mem hcaptured
  have hbase := inv.baseline.base e he u hu hid.symm version isHead
  rwa [hid] at hbase

theorem Db.Inv.workUnitBaseHeads_nodup (inv : Inv A db) (unit : String) (key : EntityKey) :
    (db.workUnitBaseHeads unit key).Nodup := by
  refine Table.sorted_nodup ((inv.baseline.keys.filter _).map_on fun b hb b' hb' hname => ?_)
  rw [List.mem_filter, decide_eq_true_eq] at hb hb'
  obtain ⟨-, hid, hkey, hhead⟩ := hb
  obtain ⟨-, hid', hkey', hhead'⟩ := hb'
  cases b
  cases b'
  simp_all

variable (inv : Inv A old) (inv' : Inv A new) (hext : Extends old new) (hu : u ∈ new.workUnits)
  (hbaseline : u.baselineCursor = old.currentScopeCursor key.scopeJson)
  (hcaptured : (new.unitEntity? u.identityJson key).isSome)

include inv inv' hext hu hbaseline hcaptured

theorem inBaseline_iff {version : String} :
    new.InBaseline u.identityJson key version ↔ old.IsPublished key version := by
  constructor
  · rintro ⟨⟨_, _, _, isHead⟩, hb, rfl, rfl, rfl⟩
    obtain ⟨⟨r, hr, hkey, hname, hby⟩, -⟩ := (inv'.baseRow_iff hu hcaptured).mp hb
    obtain ⟨hold, hnone⟩ := (publishedBy_iff inv hext hbaseline hkey).mp ⟨hr, hby⟩
    exact ⟨r, hold, hkey, hname, hnone⟩
  · rintro ⟨r, hr, hkey, hname, hnone⟩
    obtain ⟨hmem, hby⟩ := (publishedBy_iff inv hext hbaseline hkey).mpr ⟨hr, hnone⟩
    exact ⟨_, (inv'.baseRow_iff hu hcaptured).mpr ⟨⟨r, hmem, hkey, hname, hby⟩, rfl⟩, rfl, rfl, rfl⟩

/-- **The heads of the baseline are the heads that were published.** -/
theorem workUnitBaseHeads_eq :
    new.workUnitBaseHeads u.identityJson key = old.publishedHeads key := by
  have hsorted : ∀ l : List String, (Table.sorted l).Pairwise (· ≤ ·) :=
    fun l => List.pairwise_insertionSort _ l
  refine List.Perm.eq_of_pairwise' (hsorted _) (hsorted _) ?_
  refine (List.perm_ext_iff_of_nodup (inv'.workUnitBaseHeads_nodup _ _) ?_).mpr fun version => ?_
  · refine Table.sorted_nodup ((inv.published.headKeys.filter _).map_on fun h hh h' hh' hname => ?_)
    rw [List.mem_filter, decide_eq_true_eq] at hh hh'
    cases h
    cases h'
    simp_all
  · rw [mem_workUnitBaseHeads, inv'.baseRow_iff hu hcaptured, true_eq_decide_iff,
      headsAt_baseline inv hext hbaseline, and_iff_right_of_imp]
    intro hhead
    obtain ⟨r, hr, hkey, hname, hnone⟩ :=
      inv.published.isPublished (mem_publishedHeads.mp hhead)
    obtain ⟨hmem, hby⟩ := (publishedBy_iff inv hext hbaseline hkey).mpr ⟨hr, hnone⟩
    exact ⟨r, hmem, hkey, hname, hby⟩

/-- **An entity a unit has not staged is what it was when the unit was opened.** -/
theorem readWorkUnitSnapshot_unstaged (hnone : ¬ new.HasUnitHeads u.identityJson key) :
    new.readWorkUnitSnapshot u.identityJson key = old.readEntitySnapshot key := by
  have hdirect : new.directWorkUnitHeads u.identityJson key = [] := by
    refine List.eq_nil_iff_forall_not_mem.mpr fun version hversion => hnone ?_
    exact ⟨_, mem_directWorkUnitHeads.mp hversion, rfl, rfl⟩
  have hheads : new.workUnitHeads u.identityJson key = old.publishedHeads key := by
    rw [workUnitHeads, if_pos hdirect]
    exact workUnitBaseHeads_eq inv inv' hext hu hbaseline hcaptured
  have hvisible : ∀ r : EntityVersionRow, (r ∈ old.versions ∧
      decide (r.key = key ∧ r.publishedCursor.isSome = true) = true) ↔ (r ∈ new.versions ∧
        decide (r.key = key ∧ (new.InBaseline u.identityJson key r.version ∨
          r.workUnitJson = some u.identityJson)) = true) := by
    intro r
    simp only [decide_eq_true_eq, inBaseline_iff inv inv' hext hu hbaseline hcaptured]
    constructor
    · rintro ⟨hr, hkey, hsome⟩
      have hunit := (inv.publishedCursor_isSome hr).mp hsome
      exact ⟨hext.published r hr hunit, hkey, Or.inl ⟨r, hr, hkey, rfl, hunit⟩⟩
    · rintro ⟨hr, hkey, ⟨r', hr', hkey', hname', hnone'⟩ | hstaged⟩
      · obtain rfl := inv'.staging.versionKeys.eq hr (hext.published r' hr' hnone')
          (hkey.trans hkey'.symm) hname'.symm
        exact ⟨hr', hkey, (inv.publishedCursor_isSome hr').mpr hnone'⟩
      · exact absurd (hkey ▸ (inv'.staging.staged r hr _ hstaged).2.2) hnone
  have hkeys : ∀ r ∈ new.versions, decide (r.key = key ∧ (new.InBaseline u.identityJson key
      r.version ∨ r.workUnitJson = some u.identityJson)) = true → r.key = key :=
    fun _ _ hvis => (of_decide_eq_true hvis).1
  have hversions := snapshotVersions_eq inv.staging.versionKeys inv'.staging.versionKeys hkeys
    hvisible ?_
  · unfold readWorkUnitSnapshot readEntitySnapshot
    rw [hheads, hversions]
  · intro r hr hvis
    obtain ⟨hold, hvis⟩ := (hvisible r).mpr ⟨hr, hvis⟩
    exact hext.fields r hold ((inv.publishedCursor_isSome hold).mp (of_decide_eq_true hvis).2)

/-- The versions of a snapshot: the baseline, and what the unit staged. -/
theorem mem_readWorkUnitSnapshot {snapshot : EntitySnapshot}
    (h : new.readWorkUnitSnapshot u.identityJson key = some snapshot) {version : StoredEntityVersion} :
    version ∈ snapshot.versions ↔
      (∃ r ∈ old.versions, r.key = key ∧ r.workUnitJson = none ∧ old.storedVersion r = version) ∨
        ∃ r ∈ new.versions, r.key = key ∧ r.workUnitJson = some u.identityJson ∧
          new.storedVersion r = version := by
  unfold readWorkUnitSnapshot at h
  split at h
  · cases h
  rw [Option.some.injEq] at h
  subst h
  simp only [mem_snapshotVersions, decide_eq_true_eq,
    inBaseline_iff inv inv' hext hu hbaseline hcaptured]
  have hfields : ∀ r ∈ old.versions, r.workUnitJson = none →
      new.storedVersion r = old.storedVersion r := by
    intro r hr hnone
    simp only [storedVersion, hext.fields r hr hnone]
  constructor
  · rintro ⟨r, hr, ⟨hkey, ⟨r', hr', hkey', hname', hnone'⟩ | hstaged⟩, rfl⟩
    · obtain rfl := inv'.staging.versionKeys.eq hr (hext.published r' hr' hnone')
        (hkey.trans hkey'.symm) hname'.symm
      exact Or.inl ⟨r, hr', hkey, hnone', (hfields r hr' hnone').symm⟩
    · exact Or.inr ⟨r, hr, hkey, hstaged, rfl⟩
  · rintro (⟨r, hr, hkey, hnone, rfl⟩ | ⟨r, hr, hkey, hstaged, rfl⟩)
    · exact ⟨r, hext.published r hr hnone, ⟨hkey, Or.inl ⟨r, hr, hkey, rfl, hnone⟩⟩,
        hfields r hr hnone⟩
    · exact ⟨r, hr, ⟨hkey, Or.inr hstaged⟩, rfl⟩

/-- A unit shows what was published when it was opened, and over it what it staged. -/
theorem readWorkUnitSnapshot_overlays : Overlays old new u.identityJson key
    (new.readWorkUnitSnapshot u.identityJson key) := by
  refine ⟨readWorkUnitSnapshot_unstaged inv inv' hext hu hbaseline hcaptured, fun hstaged => ?_⟩
  have hne : new.directWorkUnitHeads u.identityJson key ≠ [] := by
    obtain ⟨⟨_, _, version⟩, hhead, rfl, rfl⟩ := hstaged
    exact List.ne_nil_of_mem (mem_directWorkUnitHeads.mpr hhead)
  have hheads : new.workUnitHeads u.identityJson key =
      new.directWorkUnitHeads u.identityJson key := by
    rw [workUnitHeads, if_neg hne]
  cases hread : new.readWorkUnitSnapshot u.identityJson key with
  | none =>
    unfold readWorkUnitSnapshot at hread
    rw [hheads, if_neg hne] at hread
    cases hread
  | some snapshot =>
    refine ⟨snapshot, rfl, (readWorkUnitSnapshot_heads hread).trans hheads, fun version => ?_⟩
    exact mem_readWorkUnitSnapshot inv inv' hext hu hbaseline hcaptured hread

end Baseline

/-! ### The heads of an open unit -/

/-- As long as a unit is open, its heads are versions it staged or versions of its baseline. -/
def Db.OpenHeads (db : Db) : Prop :=
  ∀ u ∈ db.workUnits, u.state = .opened → ∀ h ∈ db.unitHeads, h.workUnitJson = u.identityJson →
    db.StagedBy u.identityJson h.key h.version ∨
      ∃ r ∈ db.versions, r.key = h.key ∧ r.version = h.version ∧ PublishedBy r u.baselineCursor

theorem Db.OpenHeads.of_kept (h : OpenHeads old) (hext : Extends old new)
    (hkept : ∀ u ∈ new.workUnits, u.state = .opened → u ∈ old.workUnits ∧
      (∀ x ∈ new.unitHeads, x.workUnitJson = u.identityJson → x ∈ old.unitHeads) ∧
      ∀ r ∈ old.versions, r.workUnitJson = some u.identityJson → r ∈ new.versions) :
    OpenHeads new := by
  intro u hu hopen x hx hid
  obtain ⟨hmem, hheads, hversions⟩ := hkept u hu hopen
  refine (h u hmem hopen x (hheads x hx hid) hid).imp ?_ ?_
  · rintro ⟨r, hr, hown, hrest⟩
    exact ⟨r, hversions r hr hown, hown, hrest⟩
  · rintro ⟨r, hr, hkey, hname, hby⟩
    exact ⟨r, hext.published r hr hby.1, hkey, hname, hby⟩

theorem Db.OpenHeads.openUnit (h : OpenHeads old) (inv : StagingInv old) {workUnit : WorkUnit}
    {now expires : ℕ} (hnew : old.workUnit? workUnit.identityJson = none) :
    OpenHeads (old.openWorkUnit workUnit now expires) := by
  intro u hu hopen x hx hid
  rcases List.mem_append.mp hu with hmem | hmem
  · exact h u hmem hopen x hx hid
  · obtain ⟨e, he, heid, -⟩ := inv.headEntities x hx
    obtain ⟨u', hu', hid', -⟩ := inv.entityUnits e he
    rw [List.mem_singleton.mp hmem] at hid
    have hfree := List.find?_eq_none.mp hnew u' hu'
    simp [hid'.trans (heid.trans hid)] at hfree

/-- What a unit sees as the heads of an entity it stages in are its own or of its baseline. -/
theorem Db.OpenHeads.seen (h : OpenHeads db) (inv : Inv A db) {u : WorkUnitRow}
    (hu : u ∈ db.workUnits) (hopen : u.state = .opened) {version : String}
    (hhead : version ∈ db.workUnitHeads u.identityJson key) :
    db.StagedBy u.identityJson key version ∨
      ∃ r ∈ db.versions, r.key = key ∧ r.version = version ∧ PublishedBy r u.baselineCursor := by
  unfold workUnitHeads at hhead
  split at hhead
  · have hbase := mem_workUnitBaseHeads.mp hhead
    obtain ⟨e, he, hid, hkey⟩ := inv.baseline.entities _ hbase
    dsimp only at hid hkey
    have hrow := (inv.baseline.base e he u hu hid.symm version true).mp
      (by rw [hid, hkey]; exact hbase)
    obtain ⟨r, hr, hrkey, hname, hby⟩ := hrow.1
    exact Or.inr ⟨r, hr, hrkey.trans hkey, hname, hby⟩
  · exact h u hu hopen _ (mem_directWorkUnitHeads.mp hhead) rfl

/-- Upkeep gives no unit new heads. -/
theorem Upkeep.unitHeads (h : Upkeep K old new) : ∀ x ∈ new.unitHeads, x ∈ old.unitHeads := by
  intro x hx
  cases h with
  | sessions => exact hx
  | forget => exact hx
  | note => exact hx
  | prune => exact hx
  | expire h =>
    obtain ⟨hunit, hlive, -, h⟩ := h
    obtain ⟨rfl, -⟩ := expireWorkUnit_spec h
    exact (List.mem_filter.mp hx).1
  | openUnit => exact hx
  | capture _ _ _ h =>
    obtain ⟨_, _, rfl⟩ := captureWorkUnitEntity_eq h
    exact hx

theorem Upkeeps.unitHeads (h : Upkeeps K old new) : ∀ x ∈ new.unitHeads, x ∈ old.unitHeads := by
  induction h with
  | refl => exact fun x hx => hx
  | tail _ hstep ih => exact fun x hx => ih x (hstep.unitHeads x hx)

theorem Upkeep.openHeads (inv : Inv A old) (hold : OpenHeads old) (h : Upkeep K old new) :
    OpenHeads new := by
  have hext := (h.keeps inv).2
  cases h with
  | sessions => exact hold
  | forget => exact hold
  | note => exact hold
  | prune => exact hold
  | expire h =>
    obtain ⟨hunit, hlive, -, h⟩ := h
    obtain ⟨rfl, -⟩ := expireWorkUnit_spec h
    refine hold.of_kept hext fun u hu hopen => ?_
    obtain ⟨u', hu', rfl⟩ := List.mem_map.mp hu
    split at hopen
    · cases hopen
    · rename_i hother
      rw [if_neg hother]
      refine ⟨hu', fun x hx _ => (List.mem_filter.mp hx).1, fun r hr hown => ?_⟩
      refine List.mem_filter.mpr ⟨hr, decide_eq_true ?_⟩
      rw [hown]
      exact fun hsame => hother ⟨Option.some.inj hsame, Or.inl hopen⟩
  | openUnit workUnit now expires hunit hnew => exact hold.openUnit inv.staging hnew
  | capture _ _ _ h =>
    obtain ⟨_, _, rfl⟩ := captureWorkUnitEntity_eq h
    exact hold

theorem Upkeeps.openHeads (inv : Inv A old) (hold : OpenHeads old) (h : Upkeeps K old new) :
    OpenHeads new := by
  induction h with
  | refl => exact hold
  | tail hbefore hstep ih => exact hstep.openHeads (Upkeeps.keeps inv hbefore).1 ih

/-- **A unit that stays open has the versions of its heads.** -/
theorem Effect.openHeads (hlaw : A.Lawful) (inv : Inv A old) (hold : OpenHeads old)
    (h : Effect A K old new) : OpenHeads new := by
  obtain ⟨inv', hext⟩ := h.keeps hlaw inv
  cases h with
  | upkeep h => exact h.openHeads inv hold
  | commit hformed _ h =>
    obtain ⟨-, ⟨_, _, _, _, _, _, _, _, _, _, _, rfl⟩, -, ⟨recordedAt, hversions⟩, -⟩ :=
      commitEntityInTransaction_spec hlaw inv.crdt hformed.genuine h
    refine hold.of_kept hext fun u hu _ => ⟨hu, fun _ hx _ => hx, fun r hr _ => ?_⟩
    rw [hversions]
    exact List.mem_append_left _ hr
  | record _ h =>
    rw [insertIdempotency_eq h]
    exact hold
  | @stage _ unit staged recordedAt hunit hid hopen hformed _ hheads h =>
    have hcrdt : CrdtInv A (old.recordStagedMutation staged) :=
      inv.crdt.congr (fun _ _ h => h) rfl rfl rfl
    obtain ⟨mid, hinsert, hreplace⟩ := Except.bind_eq_ok.mp h
    obtain ⟨⟨_, _, _, rfl⟩, -⟩ := stage_spec hlaw hcrdt hformed.genuine hinsert hreplace
    intro u hu huopen x hx hxid
    rcases StagingInv.mem_replaced.mp hx with ⟨hxold, -⟩ | ⟨hxunit, hxkey, hxname⟩
    · refine (hold u hu huopen x hxold hxid).imp ?_ ?_
      · rintro ⟨r, hr, hrest⟩
        exact ⟨r, List.mem_append_left _ hr, hrest⟩
      · rintro ⟨r, hr, hrest⟩
        exact ⟨r, List.mem_append_left _ hr, hrest⟩
    · have hself : u.identityJson = unit.identityJson := hxid.symm.trans (hxunit.trans hid)
      rcases hformed.heads _ hxname with hname | hname
      · obtain ⟨v, hv, hvname⟩ := List.mem_map.mp hname
        refine Or.inl ⟨_, List.mem_append_right _ (List.mem_map_of_mem hv), ?_, hxkey.symm, hvname⟩
        rw [← hxid, hxunit]
        rfl
      · have hseen : x.version ∈ old.workUnitHeads u.identityJson staged.entity.key := by
          rw [hself, hheads]
          exact Table.mem_sorted.mpr hname
        rw [hxkey]
        refine (hold.seen inv hu huopen hseen).imp ?_ ?_
        · rintro ⟨r, hr, hrest⟩
          exact ⟨r, List.mem_append_left _ hr, hrest⟩
        · rintro ⟨r, hr, hrest⟩
          exact ⟨r, List.mem_append_left _ hr, hrest⟩
  | stageRecord _ _ _ h =>
    rw [insertWorkUnitIdempotency_eq h]
    exact hold
  | close identity =>
    refine hold.of_kept hext fun u hu hopen => ?_
    obtain ⟨u', hu', rfl⟩ := List.mem_map.mp hu
    split at hopen
    · cases hopen
    · rename_i hother
      rw [if_neg hother]
      exact ⟨hu', fun _ hx _ => hx, fun _ hr _ => hr⟩
  | resolve hunit hclosing _ _ hgenuine _ hinsert h =>
    obtain ⟨⟨_, _, _, rfl⟩, -⟩ := stage_spec hlaw inv.crdt hgenuine hinsert h
    refine hold.of_kept hext fun u hu hopen => ⟨hu, fun x hx hxid => ?_, fun r hr _ => ?_⟩
    · refine (StagingInv.mem_replaced.mp hx).elim And.left fun hown => ?_
      obtain rfl := inv.staging.unit_eq hu hunit (hxid.symm.trans hown.1)
      rw [hopen] at hclosing
      cases hclosing
    · exact List.mem_append_left _ hr
  | @publish _ unit recordedAt hunit hclosing h =>
    obtain ⟨mid, -, hpublished, -, -, -, rfl⟩ :=
      finishWorkUnitPublication_spec inv hunit (Or.inr hclosing) h
    refine hold.of_kept hext fun u hu hopen => ?_
    obtain ⟨u', hu', rfl⟩ := List.mem_map.mp hu
    rw [hpublished.workUnits_eq] at hu'
    split at hopen
    · cases hopen
    · rename_i hother
      rw [if_neg hother]
      refine ⟨hu', fun x hx _ => hpublished.unitHeads_eq ▸ hx, fun r hr hown => ?_⟩
      refine hpublished.others r hr fun hmem => hother ?_
      rw [hown] at hmem
      exact Option.some.inj hmem.1

theorem Effects.openHeads (hlaw : A.Lawful) (inv : Inv A old) (hold : OpenHeads old)
    (h : Effects A K old new) : OpenHeads new := by
  induction h with
  | refl => exact hold
  | tail hbefore hstep ih => exact hstep.openHeads hlaw (Effects.keeps hlaw inv hbefore).1 ih

end Patchouli
