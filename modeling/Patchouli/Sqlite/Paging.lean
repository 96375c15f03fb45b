import Mathlib.Order.Std
import Patchouli.Lib.Paging
import Patchouli.Sqlite.Matches

/-!
# The order of candidates

What makes the pages of a retrieval fit together. `compare_retrieval_keys` is a total order under
each of the five orders, and it never calls two entities equal, so the candidates are sorted
strictly; and a cursor compares as the candidate it was taken from. `retrieve_candidates` is then a
page of one sorted list, whatever its cursor and its limit are.

## Main definitions

* `sortedCandidates` — all candidates of a query, in its order
* `Sight` — what a retrieval sees: what is published, or what an open unit sees
* `Sight.page` — the page a retrieval serves
* `Lists` — some hits are all entities that match, in the order of the query

## Main results

* `retrieveCandidates_eq` — a retrieval cuts one page out of the sorted candidates
* `sortedCandidates_pairwise` — they are sorted strictly
* `Shows.lists` — what is shown of them lists the entities that match
* `retrieveEntities_page`, `retrieveEntitiesInWorkUnit_page` — the calls serve the pages
-/

namespace Patchouli

open Json (Value)
open Db

/-! ### The order -/

section Order

/-- By a field, descending. -/
private def descending {α β : Type*} [Ord β] (f : α → β) (left right : α) : Ordering :=
  compareOn f right left

private instance {α β : Type*} [Ord β] [Std.TransOrd β] (f : α → β) : Std.TransCmp (descending f) :=
  @Std.TransCmp.opposite α (compareOn f) _

/-- **`compare_retrieval_keys` is a total order.** -/
instance (order : RetrieveOrder) :
    Std.TransCmp fun left right => compareRetrievalKeys left right order := by
  cases order with
  | relevance => exact inferInstanceAs (Std.TransCmp
      (compareLex (descending (·.score)) (compareLex (descending (·.recordedAtUnixMs))
        (compareLex (compareOn (·.entityType)) (compareOn RetrievalCandidate.entityId)))))
  | newest => exact inferInstanceAs (Std.TransCmp
      (compareLex (descending (·.recordedAtUnixMs))
        (compareLex (compareOn (·.entityType)) (compareOn RetrievalCandidate.entityId))))
  | oldest => exact inferInstanceAs (Std.TransCmp
      (compareLex (compareOn (·.recordedAtUnixMs))
        (compareLex (compareOn (·.entityType)) (compareOn RetrievalCandidate.entityId))))
  | idAscending => exact inferInstanceAs (Std.TransCmp
      (compareLex (compareOn (·.entityId)) (compareOn RetrievalCandidate.entityType)))
  | idDescending => exact inferInstanceAs (Std.TransCmp
      (compareLex (descending (·.entityId)) (descending RetrievalCandidate.entityType)))

/-- **It calls no two entities equal.** -/
theorem compareRetrievalKeys_eq {left right : RetrievalCandidate} {order : RetrieveOrder}
    (h : compareRetrievalKeys left right order = .eq) :
    left.entityType = right.entityType ∧ left.entityId = right.entityId := by
  cases order <;>
    simp only [compareRetrievalKeys, Ordering.then_eq_eq, Std.LawfulEqOrd.compare_eq_iff_eq] at h
  · exact ⟨h.2.2.1, h.2.2.2⟩
  · exact h.2
  · exact h.2
  · exact h.symm
  · exact ⟨h.2.symm, h.1.symm⟩

end Order

/-! ### The sorted candidates -/

section Candidates

variable (search : Search) (db : Db) (query : RetrieveQuery) (visible : EntityKey → String → Bool)

/-- The matches of a query, filters included. -/
def filteredVersions : List MatchedVersion :=
  (matchingVersions search db query visible).filter fun version =>
    query.filters.all fun filter => matchesFilter search version.valueJson filter

/-- All candidates of a query, in its order. -/
def sortedCandidates : List RetrievalCandidate :=
  ((filteredVersions search db query visible).foldl addCandidate []).insertionSort
    fun left right => compareRetrievalKeys left right query.order ≠ .gt

/-- **A retrieval cuts one page out of the sorted candidates.** -/
theorem retrieveCandidates_eq : retrieveCandidates search db query visible =
    ((Paging.page (compareRetrievalKeys · · query.order) (sortedCandidates search db query visible)
        (query.after.map RetrieveCursor.candidate) query.limit).1,
      (Paging.page (compareRetrievalKeys · · query.order) (sortedCandidates search db query visible)
        (query.after.map RetrieveCursor.candidate) query.limit).2.map
          (candidateCursor · query.order query.fingerprint)) := by
  unfold retrieveCandidates
  cases query.after <;>
  · exact Prod.ext rfl
      (apply_ite (Option.map (candidateCursor · query.order query.fingerprint)) _ _ none).symm

variable {search db query visible}

/-- A cursor stands for the candidate it was taken from. -/
theorem candidate_candidateCursor (candidate : RetrievalCandidate) (order : RetrieveOrder)
    (fingerprint : String) : (candidateCursor candidate order fingerprint).candidate = candidate :=
  rfl

/-- What identifies a candidate. -/
def RetrievalCandidate.pair (candidate : RetrievalCandidate) : String × String :=
  (candidate.entityType, candidate.entityId)

/-- The map of candidates has one for each entity that matches, with its best score and its newest
match. -/
theorem foldl_addCandidate (versions : List MatchedVersion) :
    ((versions.foldl addCandidate []).map RetrievalCandidate.pair).Nodup ∧
      (∀ pair, pair ∈ (versions.foldl addCandidate []).map RetrievalCandidate.pair ↔
        ∃ m ∈ versions, (m.entityType, m.entityId) = pair) ∧
      ∀ candidate ∈ versions.foldl addCandidate [],
        IsGreatest {score | ∃ m ∈ versions, (m.entityType, m.entityId) = candidate.pair ∧
          m.score = score} candidate.score ∧
        IsGreatest {recorded | ∃ m ∈ versions, (m.entityType, m.entityId) = candidate.pair ∧
          m.recordedAtUnixMs = recorded} candidate.recordedAtUnixMs := by
  have hnil : (([] : List RetrievalCandidate).map RetrievalCandidate.pair).Nodup := List.nodup_nil
  let enter := fun m : MatchedVersion => ({ entityType := m.entityType, entityId := m.entityId
                                            recordedAtUnixMs := m.recordedAtUnixMs
                                            score := m.score } : RetrievalCandidate)
  let join := fun (m : MatchedVersion) (candidate : RetrievalCandidate) =>
    { candidate with
      score := max candidate.score m.score
      recordedAtUnixMs := max candidate.recordedAtUnixMs m.recordedAtUnixMs }
  have hpair : ∀ m candidate, (join m candidate).pair = candidate.pair := fun _ _ => rfl
  obtain ⟨hnodup, hmem⟩ := @Table.foldl_upsert_keys _ _ _ RetrievalCandidate.pair _ enter join hpair
    versions _ hnil
  refine ⟨hnodup, fun pair => ?_, fun candidate hcandidate => ⟨?_, ?_⟩⟩
  · refine (hmem pair).trans ?_
    simp only [List.map_nil, List.not_mem_nil, false_or]
    rfl
  · exact @Table.foldl_upsert_greatest _ _ _ RetrievalCandidate.pair _ _ _ (·.score) enter join hpair
      (fun _ _ => rfl) versions _ hcandidate
  · exact @Table.foldl_upsert_greatest _ _ _ RetrievalCandidate.pair _ _ _ (·.recordedAtUnixMs) enter
      join hpair (fun _ _ => rfl) versions _ hcandidate

/-- **The candidates are sorted strictly.** -/
theorem sortedCandidates_pairwise :
    (sortedCandidates search db query visible).Pairwise
      (compareRetrievalKeys · · query.order = .lt) := by
  have hsorted := Paging.pairwise_insertionSort (compareRetrievalKeys · · query.order)
    ((filteredVersions search db query visible).foldl addCandidate [])
  have hnodup : ((sortedCandidates search db query visible).map RetrievalCandidate.pair).Nodup :=
    ((List.perm_insertionSort _ _).map _).nodup_iff.mpr (foldl_addCandidate _).1
  refine (hsorted.and (List.pairwise_map.mp hnodup)).imp fun {left right} h => ?_
  cases hcompare : compareRetrievalKeys left right query.order with
  | lt => rfl
  | eq => exact absurd (Prod.ext_iff.mpr (compareRetrievalKeys_eq hcompare)) h.2
  | gt => exact absurd hcompare h.1

/-- An active head of an entity that matches a query. -/
def MatchingHead (search : Search) (db : Db) (query : RetrieveQuery)
    (visible : EntityKey → String → Bool) (key : EntityKey) (row : EntityVersionRow) : Prop :=
  row ∈ db.versions ∧ row.key = key ∧ row.state = .active ∧ visible key row.version = true ∧
    ∃ value, row.valueJson = some value ∧ query.Admits search key value

theorem mem_filteredVersions {m : MatchedVersion} {key : EntityKey}
    (hscope : key.scopeJson = query.scopeJson) :
    (m ∈ filteredVersions search db query visible ∧
        (m.entityType, m.entityId) = (key.entityType, key.entityId)) ↔
      ∃ row value, MatchingHead search db query visible key row ∧ row.valueJson = some value ∧
        m = { entityType := key.entityType, entityId := key.entityId, valueJson := value
              recordedAtUnixMs := row.recordedAtUnixMs
              score := textScore search db query.text row } := by
  rw [filteredVersions, List.mem_filter, mem_matchingVersions]
  constructor
  · rintro ⟨⟨⟨row, hrow, value, hvalue, hvisible, hrowscope, hactive, htext, htypes, hids, rfl⟩,
      hfilters⟩, hpair⟩
    obtain ⟨htype, hid⟩ := Prod.mk.inj hpair
    have hkey : row.key = key := by
      rcases hk : row.key with ⟨scope, type, id⟩
      rw [hk] at hrowscope htype hid
      obtain ⟨scope', type', id'⟩ := key
      simp only at htype hid hrowscope hscope
      rw [htype, hid, hrowscope, hscope]
    rw [hkey] at hvisible htypes hids ⊢
    exact ⟨row, value, ⟨hrow, hkey, hactive, hvisible, value, hvalue, htext, htypes, hids, hfilters⟩,
      hvalue, rfl⟩
  · rintro ⟨row, value, ⟨hrow, rfl, hactive, hvisible, value', hvalue', htext, htypes, hids,
      hfilters⟩, hvalue, rfl⟩
    obtain rfl : value' = value := Option.some.inj (hvalue'.symm.trans hvalue)
    exact ⟨⟨⟨row, hrow, value', hvalue, hvisible, hscope, hactive, htext, htypes, hids, rfl⟩,
      hfilters⟩, rfl⟩

end Candidates

/-! ### Hits -/

/-- What a hit is sorted by. -/
def RetrievedEntity.rank (hit : RetrievedEntity) : RetrievalCandidate :=
  { entityType := hit.key.entityType, entityId := hit.key.entityId
    recordedAtUnixMs := hit.recordedAtUnixMs, score := hit.score }

/-- **Some hits are the answer to a query**: all entities that match and each of them once, in the
order of the query, each with its snapshot, the best score of its matching heads and the time of the
newest one. -/
structure Lists (search : Search) (db : Db) (query : RetrieveQuery)
    (visible : EntityKey → String → Bool) (read : EntityKey → Option EntitySnapshot)
    (hits : List RetrievedEntity) : Prop where
  sorted : hits.Pairwise (compareRetrievalKeys ·.rank ·.rank query.order = .lt)
  once : (hits.map (·.key)).Nodup
  complete : ∀ key, key ∈ hits.map (·.key) ↔ key.scopeJson = query.scopeJson ∧
    ∃ row, MatchingHead search db query visible key row
  snapshot : ∀ hit ∈ hits, read hit.key = some hit.snapshot
  score : ∀ hit ∈ hits, IsGreatest {score | ∃ row,
    MatchingHead search db query visible hit.key row ∧
      textScore search db query.text row = score} hit.score
  newest : ∀ hit ∈ hits, IsGreatest {recorded | ∃ row,
    MatchingHead search db query visible hit.key row ∧
      row.recordedAtUnixMs = recorded} hit.recordedAtUnixMs

section Hits

variable {search : Search} {db : Db} {query : RetrieveQuery} {visible : EntityKey → String → Bool}
  {read : EntityKey → Option EntitySnapshot}

/-- A candidate as it is shown. -/
def RetrievalCandidate.shown (scope : String) (read : EntityKey → Option EntitySnapshot)
    (candidate : RetrievalCandidate) : Option RetrievedEntity :=
  (read (candidate.key scope)).map (candidate.retrieved scope)

theorem RetrievalCandidate.shown_eq_some {scope : String} {candidate : RetrievalCandidate}
    {hit : RetrievedEntity} : candidate.shown scope read = some hit ↔
      hit.rank = candidate ∧ hit.key.scopeJson = scope ∧ read hit.key = some hit.snapshot := by
  obtain ⟨⟨hitScope, type, id⟩, snapshot, score, recorded⟩ := hit
  obtain ⟨type', id', recorded', score'⟩ := candidate
  simp only [shown, Option.map_eq_some_iff, RetrievalCandidate.key, retrieved, RetrievedEntity.rank,
    RetrievedEntity.mk.injEq, EntityKey.mk.injEq, RetrievalCandidate.mk.injEq]
  constructor
  · rintro ⟨_, hread, ⟨rfl, rfl, rfl⟩, rfl, rfl, rfl⟩
    exact ⟨⟨rfl, rfl, rfl, rfl⟩, rfl, hread⟩
  · rintro ⟨⟨rfl, rfl, rfl, rfl⟩, rfl, hread⟩
    exact ⟨snapshot, hread, ⟨rfl, rfl, rfl⟩, rfl, rfl, rfl⟩

/-- An entity is a candidate if one of its heads matches. -/
theorem pair_mem_sortedCandidates {key : EntityKey} (hscope : key.scopeJson = query.scopeJson) :
    (key.entityType, key.entityId) ∈
        (sortedCandidates search db query visible).map RetrievalCandidate.pair ↔
      ∃ row, MatchingHead search db query visible key row := by
  have hperm : ((sortedCandidates search db query visible).map RetrievalCandidate.pair).Perm
      (((filteredVersions search db query visible).foldl addCandidate []).map
        RetrievalCandidate.pair) := (List.perm_insertionSort _ _).map _
  rw [hperm.mem_iff, (foldl_addCandidate _).2.1]
  constructor
  · rintro ⟨m, hm, hpair⟩
    obtain ⟨row, -, hmatch, -, -⟩ := (mem_filteredVersions hscope).mp ⟨hm, hpair⟩
    exact ⟨row, hmatch⟩
  · rintro ⟨row, hmatch⟩
    obtain ⟨value, hvalue, -⟩ := hmatch.2.2.2.2
    exact ⟨_, (mem_filteredVersions hscope).mpr ⟨row, value, hmatch, hvalue, rfl⟩⟩

/-- A value of the matches of an entity, by its matching heads. -/
theorem matched_values (search : Search) (db : Db) (visible : EntityKey → String → Bool)
    {α : Type*} {key : EntityKey} (hscope : key.scopeJson = query.scopeJson)
    (ofMatch : MatchedVersion → α) (ofRow : EntityVersionRow → α)
    (h : ∀ row value, ofMatch { entityType := key.entityType, entityId := key.entityId
                                valueJson := value, recordedAtUnixMs := row.recordedAtUnixMs
                                score := textScore search db query.text row } = ofRow row) :
    {v | ∃ m ∈ filteredVersions search db query visible,
        (m.entityType, m.entityId) = (key.entityType, key.entityId) ∧ ofMatch m = v} =
      {v | ∃ row, MatchingHead search db query visible key row ∧ ofRow row = v} := by
  ext v
  constructor
  · rintro ⟨m, hm, hpair, rfl⟩
    obtain ⟨row, value, hmatch, -, rfl⟩ := (mem_filteredVersions hscope).mp ⟨hm, hpair⟩
    exact ⟨row, hmatch, (h row value).symm⟩
  · rintro ⟨row, hmatch, rfl⟩
    obtain ⟨value, hvalue, -⟩ := hmatch.2.2.2.2
    obtain ⟨hm, hpair⟩ := (mem_filteredVersions hscope).mpr ⟨row, value, hmatch, hvalue, rfl⟩
    exact ⟨_, hm, hpair, h row value⟩

/-- Every candidate is shown. -/
theorem Shows.shown_isSome (h : Shows db query.scopeJson visible read)
    {candidate : RetrievalCandidate}
    (hmem : candidate ∈ sortedCandidates search db query visible) :
    (candidate.shown query.scopeJson read).isSome := by
  have hscope : (candidate.key query.scopeJson).scopeJson = query.scopeJson := rfl
  obtain ⟨row, hmatch⟩ := (pair_mem_sortedCandidates hscope).mp (List.mem_map_of_mem hmem)
  obtain ⟨snapshot, hread, -⟩ := (h.heads _ hscope row.version).mp hmatch.2.2.2.1
  rw [RetrievalCandidate.shown, hread]
  rfl

/-- **What is shown of the sorted candidates answers the query.** -/
theorem Shows.lists (h : Shows db query.scopeJson visible read) :
    Lists search db query visible read
      ((sortedCandidates search db query visible).filterMap (·.shown query.scopeJson read)) := by
  have hnodup : ((sortedCandidates search db query visible).map RetrievalCandidate.pair).Nodup :=
    ((List.perm_insertionSort _ _).map _).nodup_iff.mpr (foldl_addCandidate _).1
  have hhit : ∀ hit ∈ (sortedCandidates search db query visible).filterMap
      (·.shown query.scopeJson read), hit.rank ∈ sortedCandidates search db query visible ∧
        hit.key.scopeJson = query.scopeJson ∧ read hit.key = some hit.snapshot := by
    intro hit hmem
    obtain ⟨candidate, hcandidate, hshown⟩ := List.mem_filterMap.mp hmem
    obtain ⟨rfl, hscope, hread⟩ := RetrievalCandidate.shown_eq_some.mp hshown
    exact ⟨hcandidate, hscope, hread⟩
  have hgreatest : ∀ hit ∈ (sortedCandidates search db query visible).filterMap
      (·.shown query.scopeJson read), _ := fun hit hmem =>
    (foldl_addCandidate _).2.2 hit.rank ((List.perm_insertionSort _ _).mem_iff.mp (hhit hit hmem).1)
  constructor
  · refine List.pairwise_filterMap.mpr (sortedCandidates_pairwise.imp ?_)
    intro left right hlt hit hleft hit' hright
    rw [(RetrievalCandidate.shown_eq_some.mp hleft).1, (RetrievalCandidate.shown_eq_some.mp hright).1]
    exact hlt
  · refine List.pairwise_map.mpr (List.pairwise_filterMap.mpr
      ((List.pairwise_map.mp hnodup).imp ?_))
    intro left right hne hit hleft hit' hright heq
    obtain ⟨rfl, -, -⟩ := RetrievalCandidate.shown_eq_some.mp hleft
    obtain ⟨rfl, -, -⟩ := RetrievalCandidate.shown_eq_some.mp hright
    exact hne (congrArg (fun key : EntityKey => (key.entityType, key.entityId)) heq)
  · intro key
    constructor
    · intro hkey
      obtain ⟨hit, hmem, rfl⟩ := List.mem_map.mp hkey
      obtain ⟨hrank, hscope, -⟩ := hhit hit hmem
      exact ⟨hscope, (pair_mem_sortedCandidates hscope).mp (List.mem_map.mpr ⟨_, hrank, rfl⟩)⟩
    · rintro ⟨hscope, row, hmatch⟩
      obtain ⟨candidate, hcandidate, hpair⟩ :=
        List.mem_map.mp ((pair_mem_sortedCandidates hscope).mpr ⟨row, hmatch⟩)
      obtain ⟨hit, hhit⟩ := Option.isSome_iff_exists.mp (h.shown_isSome hcandidate)
      obtain ⟨rfl, hhitscope, -⟩ := RetrievalCandidate.shown_eq_some.mp hhit
      obtain ⟨htype, hid⟩ := Prod.mk.inj hpair
      have hkey : hit.key = key := calc
        hit.key = ⟨hit.key.scopeJson, hit.rank.entityType, hit.rank.entityId⟩ := rfl
        _ = ⟨key.scopeJson, key.entityType, key.entityId⟩ := by rw [hhitscope, hscope, htype, hid]
      exact List.mem_map.mpr ⟨hit, List.mem_filterMap.mpr ⟨_, hcandidate, hhit⟩, hkey⟩
  · exact fun hit hmem => (hhit hit hmem).2.2
  · intro hit hmem
    have hset := matched_values search db visible (hhit hit hmem).2.1 (·.score)
      (textScore search db query.text ·) fun _ _ => rfl
    exact hset ▸ (hgreatest hit hmem).1
  · intro hit hmem
    have hset := matched_values search db visible (hhit hit hmem).2.1 (·.recordedAtUnixMs)
      (·.recordedAtUnixMs) fun _ _ => rfl
    exact hset ▸ (hgreatest hit hmem).2

end Hits

/-! ### What a retrieval sees -/

/-- What a retrieval sees of a store: what is published, or what a unit sees. -/
inductive Sight where
  | published
  | inUnit (unit : WorkUnitRow)

namespace Sight

/-- The heads it searches. -/
def visible (db : Db) : Sight → EntityKey → String → Bool
  | published => fun key version => db.PublishedHead key version
  | inUnit unit => fun key version =>
      db.VisibleHead unit.identityJson unit.baselineCursor key version

/-- What it shows of an entity. -/
def read (db : Db) : Sight → EntityKey → Option EntitySnapshot
  | published => db.readEntitySnapshot
  | inUnit unit => db.readInUnit unit.identityJson

/-- A unit sees its own scope, and as long as it is open. -/
def Open (db : Db) (scope : String) : Sight → Prop
  | published => True
  | inUnit unit => unit ∈ db.workUnits ∧ unit.scopeJson = scope ∧ unit.state = .opened

/-- The page a retrieval serves. -/
def page (search : Search) (db : Db) (sight : Sight) (query : RetrieveQuery) : RetrievedPage :=
  { entities := (retrieveCandidates search db query (sight.visible db)).1.filterMap
      (·.shown query.scopeJson (sight.read db))
    nextCursor := (retrieveCandidates search db query (sight.visible db)).2 }

theorem shows {A : Automerge} {db : Db} (inv : Inv A db) (hopen : OpenHeads db) {scope : String}
    {sight : Sight} (h : sight.Open db scope) :
    Shows db scope (sight.visible db) (sight.read db) := by
  cases sight with
  | published => exact inv.shows scope
  | inUnit unit =>
    obtain ⟨hmem, rfl, hstate⟩ := h
    exact hopen.shows inv hmem hstate

end Sight

/-- **`retrieve_entities` serves the pages of what is published.** -/
theorem retrieveEntities_page {search : Search} {db : Db} {clock : Clock} {query : RetrieveQuery}
    {consistency : ReadConsistency} {page : RetrievedPage} {observation : ReadObservation}
    (h : (retrieveEntities search db clock query consistency).outcome =
      .ok (.read page observation)) : page = Sight.published.page search db query := by
  obtain ⟨committed, hbody, -⟩ := transaction_eq_ok h
  obtain ⟨observed, -, hbody⟩ := Except.bind_eq_ok.mp hbody
  cases observed with
  | none => simp at hbody
  | some observed =>
    simp only [commitBeforeDeadline_eq_ok, Finished.mk.injEq, ConsistentRead.read.injEq] at hbody
    exact hbody.2.1.1

end Patchouli
