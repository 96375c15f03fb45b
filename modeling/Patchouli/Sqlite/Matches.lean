import Patchouli.Sqlite.Overlay

/-!
# Retrieval agrees with reading

Retrieval finds visible heads by a condition on rows; reading builds snapshots. Both say the same of
an entity: `Shows` states when a visibility condition describes the snapshots some reads return, and
for such a pair the entities that match a query are those of which some active head, as it is read,
satisfies the query.

## Main definitions

* `RetrieveQuery.Admits`, `EntitySnapshot.Matches` — what a query asks of a value, of a read
* `RetrieveQuery.page` — where a page is cut out of the candidates
* `Shows` — a visibility condition describes some reads

## Main results

* `Shows.candidates` — the candidates are the entities whose reads match
* `Db.Inv.shows`, `Db.OpenHeads.shows` — published reads and reads in an open unit
-/

namespace Patchouli

open Json (Value)
open Db

section Queries

variable (search : Search) (query : RetrieveQuery)

/-- The type, id, text and filter conditions of a query. -/
def RetrieveQuery.Admits (key : EntityKey) (value : Value) : Prop :=
  matchesText search query.text value = true ∧
    query.entityTypes.all (key.entityType ∈ ·) = true ∧
    query.entityIds.all (key.entityId ∈ ·) = true ∧
    query.filters.all (fun filter => matchesFilter search value filter) = true

/-- Some active head of a read satisfies the query. -/
def EntitySnapshot.Matches (key : EntityKey) (snapshot : EntitySnapshot) : Prop :=
  ∃ v ∈ snapshot.versions, v.version ∈ snapshot.headVersions ∧ v.state = .active ∧
    ∃ value, v.valueJson = some value ∧ query.Admits search key value

/-- The page of a query: the candidates after its cursor, up to its limit. -/
def RetrieveQuery.page (candidates : List RetrievalCandidate) : List RetrievalCandidate :=
  (match query.after with
    | none => candidates
    | some cursor => candidates.filter fun candidate =>
        compareRetrievalKeys candidate cursor.candidate query.order = Ordering.gt).take query.limit

end Queries

/-- Which heads are visible is what the reads of a scope say. -/
structure Shows (db : Db) (scope : String) (visible : EntityKey → String → Bool)
    (read : EntityKey → Option EntitySnapshot) : Prop where
  heads : ∀ key, key.scopeJson = scope → ∀ version, visible key version = true ↔
    ∃ snapshot, read key = some snapshot ∧ version ∈ snapshot.headVersions
  shown : ∀ key, key.scopeJson = scope → ∀ snapshot, read key = some snapshot →
    ∀ r ∈ db.versions, r.key = key → r.version ∈ snapshot.headVersions →
      ∃ v ∈ snapshot.versions, v.version = r.version ∧ v.state = r.state ∧ v.valueJson = r.valueJson
  stored : ∀ key, key.scopeJson = scope → ∀ snapshot, read key = some snapshot →
    ∀ v ∈ snapshot.versions, ∃ r ∈ db.versions, r.key = key ∧ v.version = r.version ∧
      v.state = r.state ∧ v.valueJson = r.valueJson

variable {search : Search} {db : Db} {query : RetrieveQuery} {visible : EntityKey → String → Bool}
  {read : EntityKey → Option EntitySnapshot}

theorem mem_matchingVersions {m : MatchedVersion} :
    m ∈ matchingVersions search db query visible ↔
      ∃ r ∈ db.versions, ∃ value, r.valueJson = some value ∧ visible r.key r.version = true ∧
        r.key.scopeJson = query.scopeJson ∧ r.state = .active ∧
        matchesText search query.text value = true ∧
        query.entityTypes.all (r.key.entityType ∈ ·) = true ∧
        query.entityIds.all (r.key.entityId ∈ ·) = true ∧
        m = { entityType := r.key.entityType, entityId := r.key.entityId, valueJson := value
              recordedAtUnixMs := r.recordedAtUnixMs
              score := textScore search db query.text r } := by
  simp only [matchingVersions, List.mem_filterMap]
  refine exists_congr fun r => and_congr_right fun _ => ?_
  cases hvalue : r.valueJson with
  | none => simp
  | some value =>
    simp only [Option.some.injEq, exists_eq_left']
    split
    · rename_i hcond
      obtain ⟨h1, h2, h3, h4, h5, h6⟩ := hcond
      simp only [Option.some.injEq, h1, h2, h3, h4, h5, h6, true_and, eq_comm]
    · rename_i hcond
      simp only [reduceCtorEq, false_iff]
      rintro ⟨h1, h2, h3, h4, h5, h6, -⟩
      exact hcond ⟨h1, h2, h3, h4, h5, h6⟩

/-- **The entities that match are those whose reads match.** -/
theorem Shows.matched_iff (h : Shows db query.scopeJson visible read) {key : EntityKey}
    (hscope : key.scopeJson = query.scopeJson) :
    (∃ m ∈ (matchingVersions search db query visible).filter fun version =>
        query.filters.all fun filter => matchesFilter search version.valueJson filter,
      (m.entityType, m.entityId) = (key.entityType, key.entityId)) ↔
      ∃ snapshot, read key = some snapshot ∧ snapshot.Matches search query key := by
  constructor
  · rintro ⟨m, hm, hkey⟩
    obtain ⟨hm, hfilters⟩ := List.mem_filter.mp hm
    obtain ⟨r, hr, value, hvalue, hvisible, hrscope, hactive, htext, htypes, hids, rfl⟩ :=
      mem_matchingVersions.mp hm
    have hrkey : r.key = key := by
      obtain ⟨htype, hid⟩ := Prod.mk.inj hkey
      cases hk : r.key
      cases key
      simp_all
    rw [hrkey] at hvisible htypes hids
    obtain ⟨snapshot, hread, hhead⟩ := (h.heads key hscope _).mp hvisible
    obtain ⟨v, hv, hname, hstate, hjson⟩ := h.shown key hscope snapshot hread r hr hrkey hhead
    exact ⟨snapshot, hread, v, hv, hname ▸ hhead, hstate.trans hactive, value, hjson.trans hvalue,
      htext, htypes, hids, hfilters⟩
  · rintro ⟨snapshot, hread, v, hv, hhead, hactive, value, hjson, htext, htypes, hids, hfilters⟩
    obtain ⟨r, hr, rfl, hname, hstate, hvalue⟩ := h.stored key hscope snapshot hread v hv
    refine ⟨_, List.mem_filter.mpr ⟨mem_matchingVersions.mpr ⟨r, hr, value, hvalue ▸ hjson, ?_, hscope,
      hstate ▸ hactive, htext, htypes, hids, rfl⟩, hfilters⟩, rfl⟩
    exact (h.heads r.key hscope r.version).mpr ⟨snapshot, hread, hname ▸ hhead⟩

/-- **The candidates of a query**: each entity whose read matches, once; the page is cut out of
them. -/
theorem Shows.candidates (h : Shows db query.scopeJson visible read) :
    ∃ candidates : List RetrievalCandidate,
      (retrieveCandidates search db query visible).1 = query.page candidates ∧
      (candidates.map (·.key query.scopeJson)).Nodup ∧
      ∀ key, key.scopeJson = query.scopeJson →
        (key ∈ candidates.map (·.key query.scopeJson) ↔
          ∃ snapshot, read key = some snapshot ∧ snapshot.Matches search query key) := by
  let matched := (matchingVersions search db query visible).filter fun version =>
    query.filters.all fun filter => matchesFilter search version.valueJson filter
  let candidates := (matched.foldl addCandidate []).insertionSort
    fun left right => compareRetrievalKeys left right query.order ≠ .gt
  let pair := fun candidate : RetrievalCandidate => (candidate.entityType, candidate.entityId)
  have hstep : ∀ (version : MatchedVersion) (candidate : RetrievalCandidate),
      pair { candidate with
        score := max candidate.score version.score
        recordedAtUnixMs := max candidate.recordedAtUnixMs version.recordedAtUnixMs } =
      pair candidate := fun _ _ => rfl
  have hnil : (([] : List RetrievalCandidate).map pair).Nodup := List.nodup_nil
  obtain ⟨hnodup, hmem⟩ := @Table.foldl_upsert_keys _ _ _ pair _ (fun version : MatchedVersion =>
    { entityType := version.entityType, entityId := version.entityId
      recordedAtUnixMs := version.recordedAtUnixMs, score := version.score }) _ hstep matched _ hnil
  have hperm : (candidates.map (·.key query.scopeJson)).Perm
      (((matched.foldl addCandidate []).map fun candidate =>
        (candidate.entityType, candidate.entityId)).map
          fun pair => ⟨query.scopeJson, pair.1, pair.2⟩) := by
    rw [List.map_map]
    exact (List.perm_insertionSort _ _).map _
  refine ⟨candidates, rfl, ?_, fun key hscope => ?_⟩
  · refine hperm.nodup_iff.mpr (hnodup.map fun a b hab => ?_)
    simpa [Prod.ext_iff] using hab
  · rw [hperm.mem_iff, ← h.matched_iff hscope, List.mem_map]
    have hpair : ∀ pair : String × String, (⟨query.scopeJson, pair.1, pair.2⟩ : EntityKey) = key ↔
        pair = (key.entityType, key.entityId) := by
      intro pair
      cases key
      simp_all [Prod.ext_iff]
    simp only [hpair, exists_eq_right]
    refine (hmem _).trans ?_
    simp only [List.map_nil, List.not_mem_nil, false_or]
    rfl

/-! ### Published reads -/

variable {A : Automerge}

theorem Db.Inv.shows (inv : Inv A db) (scope : String) :
    Shows db scope (fun key version => db.PublishedHead key version) db.readEntitySnapshot := by
  have hread : ∀ key snapshot, db.readEntitySnapshot key = some snapshot →
      snapshot.headVersions = db.publishedHeads key ∧
        snapshot.versions =
          db.snapshotVersions fun row => row.key = key ∧ row.publishedCursor.isSome := by
    intro key snapshot h
    unfold readEntitySnapshot at h
    split at h
    · cases h
    · rw [Option.some.injEq] at h
      exact h ▸ ⟨rfl, rfl⟩
  refine ⟨fun key _ version => ?_, fun key _ snapshot h r hr hkey hhead => ?_,
    fun key _ snapshot h v hv => ?_⟩
  · rw [decide_eq_true_eq, PublishedHead, ← mem_publishedHeads]
    constructor
    · intro hmem
      have hne : db.publishedHeads key ≠ [] := List.ne_nil_of_mem hmem
      exact ⟨_, by rw [readEntitySnapshot, if_neg hne], hmem⟩
    · rintro ⟨snapshot, h, hmem⟩
      rwa [(hread key snapshot h).1] at hmem
  · rw [(hread key snapshot h).1, mem_publishedHeads] at hhead
    obtain ⟨r', hr', hkey', hname', hnone'⟩ := inv.published.isPublished hhead
    obtain rfl := inv.staging.versionKeys.eq hr hr' (hkey.trans hkey'.symm) hname'.symm
    refine ⟨db.storedVersion r, ?_, rfl, rfl, rfl⟩
    rw [(hread key snapshot h).2, mem_snapshotVersions]
    exact ⟨r, hr, decide_eq_true ⟨hkey, (inv.publishedCursor_isSome hr).mpr hnone'⟩, rfl⟩
  · rw [(hread key snapshot h).2, mem_snapshotVersions] at hv
    obtain ⟨r, hr, hvisible, rfl⟩ := hv
    exact ⟨r, hr, (of_decide_eq_true hvisible).1, rfl, rfl, rfl⟩

/-! ### Reads in a unit -/

/-- What a read of an entity in an open unit returns: the unit captures the entity first. -/
def Db.readInUnit (db : Db) (unit : String) (key : EntityKey) : Option EntitySnapshot :=
  match db.captureWorkUnitEntity unit key with
  | .ok captured => captured.readWorkUnitSnapshot unit key
  | .error _ => none

theorem readWorkUnitSnapshot_eq_some {db : Db} {unit : String} {key : EntityKey}
    {snapshot : EntitySnapshot} (h : db.readWorkUnitSnapshot unit key = some snapshot) :
    snapshot.headVersions = db.workUnitHeads unit key ∧ ∀ v, v ∈ snapshot.versions ↔
      ∃ r ∈ db.versions, (r.key = key ∧ (db.InBaseline unit key r.version ∨
        r.workUnitJson = some unit)) ∧ db.storedVersion r = v := by
  unfold readWorkUnitSnapshot at h
  split at h
  · cases h
  · rw [Option.some.injEq] at h
    subst h
    refine ⟨rfl, fun v => ?_⟩
    simp only [mem_snapshotVersions, decide_eq_true_eq]

/-- A capture of an open unit, with what it leaves alone. -/
theorem Db.Inv.captured (inv : Inv A db) {u : WorkUnitRow} (hu : u ∈ db.workUnits)
    {key : EntityKey} (hscope : u.scopeJson = key.scopeJson) :
    ∃ unitEntities unitBaseVersions,
      db.captureWorkUnitEntity u.identityJson key =
        .ok { db with unitEntities, unitBaseVersions } ∧
      Inv A { db with unitEntities, unitBaseVersions } ∧
      (unitEntity? { db with unitEntities, unitBaseVersions } u.identityJson key).isSome := by
  have hcaptured : ∃ captured, db.captureWorkUnitEntity u.identityJson key = .ok captured ∧
      (captured.unitEntity? u.identityJson key).isSome := by
    unfold Db.captureWorkUnitEntity
    split
    · rename_i hsome
      exact ⟨db, rfl, hsome⟩
    · rw [workUnit?_of_mem inv.staging.unitKeys hu]
      refine ⟨_, rfl, List.find?_isSome.mpr
        ⟨_, List.mem_append_right _ (List.mem_singleton_self _), ?_⟩⟩
      simp
  obtain ⟨captured, hcapture, hsome⟩ := hcaptured
  have inv' := (inv.capture hu hscope hcapture).1
  obtain ⟨unitEntities, unitBaseVersions, rfl⟩ := captureWorkUnitEntity_eq hcapture
  exact ⟨unitEntities, unitBaseVersions, hcapture, inv', hsome⟩

/-- The heads of the baseline are among its versions. -/
theorem Db.Inv.mem_workUnitBaseHeads_iff (inv : Inv A db) {u : WorkUnitRow} (hu : u ∈ db.workUnits)
    {key : EntityKey} (hcaptured : (db.unitEntity? u.identityJson key).isSome) {version : String} :
    version ∈ db.workUnitBaseHeads u.identityJson key ↔
      version ∈ db.headsAt key u.baselineCursor := by
  rw [mem_workUnitBaseHeads, inv.baseRow_iff hu hcaptured, true_eq_decide_iff,
    and_iff_right_of_imp]
  intro hhead
  obtain ⟨h, hh, hkey, hle, hmem⟩ := mem_headsAt hhead
  obtain ⟨r, hr, hrkey, hname, hby⟩ := (inv.published.history h hh).2 version hmem
  exact ⟨r, hr, hrkey.trans hkey, hname, hby.mono hle⟩

theorem Db.OpenHeads.shows (hopen : OpenHeads db) (inv : Inv A db) {u : WorkUnitRow}
    (hu : u ∈ db.workUnits) (hstate : u.state = .opened) :
    Shows db u.scopeJson (fun key version => db.VisibleHead u.identityJson u.baselineCursor key version)
      (db.readInUnit u.identityJson) := by
  have hread : ∀ key, key.scopeJson = u.scopeJson → ∃ unitEntities unitBaseVersions,
      db.readInUnit u.identityJson key =
        readWorkUnitSnapshot { db with unitEntities, unitBaseVersions } u.identityJson key ∧
      Inv A { db with unitEntities, unitBaseVersions } ∧
      (unitEntity? { db with unitEntities, unitBaseVersions } u.identityJson key).isSome := by
    intro key hscope
    obtain ⟨unitEntities, unitBaseVersions, hcapture, inv', hsome⟩ := inv.captured hu hscope.symm
    exact ⟨unitEntities, unitBaseVersions, by rw [readInUnit, hcapture], inv', hsome⟩
  refine ⟨fun key hscope version => ?_, fun key hscope snapshot h r hr hkey hhead => ?_,
    fun key hscope snapshot h v hv => ?_⟩
  · obtain ⟨unitEntities, unitBaseVersions, hsame, inv', hsome⟩ := hread key hscope
    have hheads : (∃ snapshot, db.readInUnit u.identityJson key = some snapshot ∧
        version ∈ snapshot.headVersions) ↔ version ∈
          workUnitHeads { db with unitEntities, unitBaseVersions } u.identityJson key := by
      rw [hsame]
      constructor
      · rintro ⟨snapshot, h, hmem⟩
        rwa [(readWorkUnitSnapshot_eq_some h).1] at hmem
      · intro hmem
        exact ⟨_, by rw [readWorkUnitSnapshot, if_neg (List.ne_nil_of_mem hmem)], hmem⟩
    rw [hheads, decide_eq_true_eq, VisibleHead, workUnitHeads]
    split
    · rename_i hnone
      rw [inv'.mem_workUnitBaseHeads_iff hu hsome]
      have hempty : ∀ head ∈ db.unitHeads,
          ¬ (head.workUnitJson = u.identityJson ∧ head.key = key) := by
        rintro head hhead ⟨hid, hkey⟩
        have hmem : head.version ∈ directWorkUnitHeads { db with unitEntities, unitBaseVersions }
            u.identityJson key := mem_directWorkUnitHeads.mpr (hid ▸ hkey ▸ hhead)
        rw [hnone] at hmem
        cases hmem
      constructor
      · rintro (hmem | ⟨-, hmem⟩)
        · exact absurd ⟨rfl, rfl⟩ (hempty _ hmem)
        · exact hmem
      · exact fun hmem => Or.inr ⟨hempty, hmem⟩
    · rename_i hsome'
      rw [mem_directWorkUnitHeads]
      refine or_iff_left ?_
      rintro ⟨hempty, -⟩
      obtain ⟨name, hname⟩ := List.exists_mem_of_ne_nil _ hsome'
      exact hempty _ (mem_directWorkUnitHeads.mp hname) ⟨rfl, rfl⟩
  · obtain ⟨unitEntities, unitBaseVersions, hsame, inv', hsome⟩ := hread key hscope
    obtain ⟨hheads, hversions⟩ := readWorkUnitSnapshot_eq_some (hsame.symm.trans h)
    rw [hheads] at hhead
    have hopen' : OpenHeads { db with unitEntities, unitBaseVersions } := hopen
    refine ⟨_, (hversions _).mpr ⟨r, hr, ⟨hkey, ?_⟩, rfl⟩, rfl, rfl, rfl⟩
    rcases hopen'.seen inv' hu hstate hhead with
      ⟨r', hr', hown, hkey', hname'⟩ | ⟨r', hr', hkey', hname', hby⟩
    · obtain rfl := inv.staging.versionKeys.eq hr hr' (hkey.trans hkey'.symm) hname'.symm
      exact Or.inr hown
    · exact Or.inl ⟨_, (inv'.baseRow_iff hu hsome).mpr ⟨⟨r', hr', hkey', hname', hby⟩, rfl⟩, rfl, rfl,
        rfl⟩
  · obtain ⟨unitEntities, unitBaseVersions, hsame, -, -⟩ := hread key hscope
    obtain ⟨-, hversions⟩ := readWorkUnitSnapshot_eq_some (hsame.symm.trans h)
    obtain ⟨r, hr, ⟨hkey, -⟩, rfl⟩ := (hversions v).mp hv
    exact ⟨r, hr, hkey, rfl, rfl, rfl⟩

/-! ### The hits of a page -/

/-- Captures leave the baseline of a captured entity alone. -/
theorem readWorkUnitSnapshot_congr {unitEntities unitEntities' : List WorkUnitEntityRow}
    {unitBaseVersions unitBaseVersions' : List WorkUnitBaseVersionRow}
    (inv : Inv A { db with unitEntities, unitBaseVersions })
    (inv' : Inv A { db with
      unitEntities := unitEntities', unitBaseVersions := unitBaseVersions' })
    {u : WorkUnitRow} (hu : u ∈ db.workUnits) {key : EntityKey}
    (hcaptured : (unitEntity? { db with unitEntities, unitBaseVersions }
      u.identityJson key).isSome)
    (hcaptured' : (unitEntity? { db with
      unitEntities := unitEntities', unitBaseVersions := unitBaseVersions' }
        u.identityJson key).isSome) :
    readWorkUnitSnapshot { db with unitEntities, unitBaseVersions } u.identityJson key =
      readWorkUnitSnapshot { db with
        unitEntities := unitEntities', unitBaseVersions := unitBaseVersions' }
          u.identityJson key := by
  have hbase : workUnitBaseHeads { db with unitEntities, unitBaseVersions } u.identityJson key =
      workUnitBaseHeads { db with
        unitEntities := unitEntities', unitBaseVersions := unitBaseVersions' }
          u.identityJson key := by
    refine List.Perm.eq_of_pairwise' (List.pairwise_insertionSort _ _)
      (List.pairwise_insertionSort _ _) ?_
    refine (List.perm_ext_iff_of_nodup (inv.workUnitBaseHeads_nodup _ _)
      (inv'.workUnitBaseHeads_nodup _ _)).mpr fun version => ?_
    rw [inv.mem_workUnitBaseHeads_iff hu hcaptured, inv'.mem_workUnitBaseHeads_iff hu hcaptured']
    rfl
  have hheads : workUnitHeads { db with unitEntities, unitBaseVersions } u.identityJson key =
      workUnitHeads { db with
        unitEntities := unitEntities', unitBaseVersions := unitBaseVersions' }
          u.identityJson key := by
    rw [workUnitHeads, workUnitHeads, hbase]
    rfl
  have hin : ∀ version, InBaseline { db with unitEntities, unitBaseVersions } u.identityJson key
      version ↔ InBaseline { db with
        unitEntities := unitEntities', unitBaseVersions := unitBaseVersions' }
          u.identityJson key version := by
    intro version
    constructor
    · rintro ⟨⟨_, _, _, isHead⟩, hb, rfl, rfl, rfl⟩
      exact ⟨_, (inv'.baseRow_iff hu hcaptured').mpr ((inv.baseRow_iff hu hcaptured).mp hb), rfl, rfl,
        rfl⟩
    · rintro ⟨⟨_, _, _, isHead⟩, hb, rfl, rfl, rfl⟩
      exact ⟨_, (inv.baseRow_iff hu hcaptured).mpr ((inv'.baseRow_iff hu hcaptured').mp hb), rfl, rfl,
        rfl⟩
  unfold readWorkUnitSnapshot
  simp only [hheads, hin]
  rfl

/-- The hits of a retrieval in a unit are its candidates as the unit reads them. -/
theorem foldlM_retrieveCaptured_eq {u : WorkUnitRow} (hu : u ∈ db.workUnits) (inv : Inv A db)
    {candidates : List RetrievalCandidate} {unitEntities : List WorkUnitEntityRow}
    {unitBaseVersions : List WorkUnitBaseVersionRow}
    (inv' : Inv A { db with unitEntities, unitBaseVersions }) {found result : List RetrievedEntity}
    {new : Db}
    (h : candidates.foldlM (retrieveCaptured u.identityJson u.scopeJson)
      ({ db with unitEntities, unitBaseVersions }, found) = .ok (new, result)) :
    result = found ++ candidates.filterMap fun candidate =>
      (db.readInUnit u.identityJson (candidate.key u.scopeJson)).map
        (candidate.retrieved u.scopeJson) := by
  induction candidates generalizing unitEntities unitBaseVersions found with
  | nil =>
    simp only [List.foldlM_nil, Except.pure_eq_ok, Except.ok.injEq, Prod.mk.injEq] at h
    simp [h.2]
  | cons candidate rest ih =>
    obtain ⟨⟨next, found'⟩, hnext, hrest⟩ := Except.foldlM_cons_eq_ok.mp h
    obtain ⟨captured, hcapture, hnext⟩ := Except.bind_eq_ok.mp hnext
    have hscope : u.scopeJson = (candidate.key u.scopeJson).scopeJson := rfl
    obtain ⟨entities, bases, hcapture', hinv, hsome⟩ := inv.captured hu hscope
    obtain ⟨entities', bases', hcapture'', hinv', hsome'⟩ := inv'.captured hu hscope
    have hread : db.readInUnit u.identityJson (candidate.key u.scopeJson) =
        readWorkUnitSnapshot { db with unitEntities := entities', unitBaseVersions := bases' }
          u.identityJson (candidate.key u.scopeJson) := by
      rw [readInUnit, hcapture']
      exact readWorkUnitSnapshot_congr hinv hinv' hu hsome hsome'
    dsimp only at hcapture
    rw [hcapture'', Except.ok.injEq] at hcapture
    subst hcapture
    rw [List.filterMap_cons, hread]
    split at hnext
    · rename_i snapshot hsnapshot
      simp only [Except.pure_eq_ok, Except.ok.injEq, Prod.mk.injEq] at hnext
      obtain ⟨rfl, rfl⟩ := hnext
      rw [hsnapshot, ih hinv' hrest]
      simp
    · rename_i hsnapshot
      simp only [Except.pure_eq_ok, Except.ok.injEq, Prod.mk.injEq] at hnext
      obtain ⟨rfl, rfl⟩ := hnext
      rw [hsnapshot, ih hinv' hrest]
      simp

/-- A page of candidates that are all read has one hit for each of them. -/
theorem hits_keys {scope : String} {candidates : List RetrievalCandidate}
    (h : ∀ candidate ∈ candidates, ∃ snapshot, read (candidate.key scope) = some snapshot) :
    (candidates.filterMap fun candidate =>
        (read (candidate.key scope)).map (candidate.retrieved scope)).map (·.key) =
      candidates.map (·.key scope) := by
  induction candidates with
  | nil => rfl
  | cons candidate rest ih =>
    rw [List.forall_mem_cons] at h
    obtain ⟨snapshot, hsnapshot⟩ := h.1
    rw [List.filterMap_cons, hsnapshot]
    simp only [Option.map_some, List.map_cons, ih h.2]
    rfl

theorem RetrieveQuery.mem_page {query : RetrieveQuery} {candidates : List RetrievalCandidate}
    {candidate : RetrievalCandidate} (h : candidate ∈ query.page candidates) :
    candidate ∈ candidates := by
  unfold RetrieveQuery.page at h
  have hmem := List.mem_of_mem_take h
  split at hmem
  · exact hmem
  · exact (List.mem_filter.mp hmem).1

end Patchouli
