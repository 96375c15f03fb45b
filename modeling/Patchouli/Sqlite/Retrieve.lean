import Mathlib.Algebra.Order.Ring.Unbundled.Rat
import Mathlib.Data.List.Infix
import Patchouli.Sqlite.WorkUnit

/-!
# Retrieval

`retrieve_entities` and `retrieve_entities_in_work_unit`: the active heads that match a query, one
candidate for each entity, in the order of the query, page by page. Which heads are visible is all
that distinguishes a published retrieval from one in a work unit.

What the text functions of SQLite and the comparison of JSON numbers answer is the parameter
`Search`. The score of a full-text match may depend on the whole index, and so on the database.

## Main definitions

* `Db.PublishedHead`, `Db.VisibleHead` — what each of them searches
* `matchingVersions`, `retrieveCandidates`
* `retrieveEntities`, `retrieveEntitiesInWorkUnit` — the provider calls
-/

namespace Patchouli

open Json (Value)

/-- What a retrieval asks SQLite and `serde_json`. -/
structure Search where
  /-- `instr(lower(value_json), lower(text)) > 0`, for texts of one or two characters. -/
  contains : String → Value → Bool
  /-- `patchouli_entity_fts MATCH text`. -/
  indexed : String → Value → Bool
  /-- `-bm25(patchouli_entity_fts)`. -/
  score : Db → String → EntityVersionRow → ℚ
  compareNumbers : Json.Number → Json.Number → Option Ordering

section Search

variable (search : Search)

/-! ### Filters -/

/-- `compare_json`. -/
def compareJson : Value → Value → Option Ordering
  | .string left, .string right => some (compare left right)
  | .number left, .number right => search.compareNumbers left right
  | _, _ => none

/-- The `contains` operator. -/
def jsonContains : Value → Value → Bool
  | .array values, expected => expected ∈ values
  | .string value, .string expected => expected.toList <:+: value.toList
  | _, _ => false

/-- `matches_filter`. -/
def matchesFilter (value : Value) (filter : RetrieveFilter) : Bool :=
  match value.pointer filter.pointer with
  | none => false
  | some actual =>
    match filter.operator with
    | .equal => actual = filter.valueJson
    | .notEqual => actual ≠ filter.valueJson
    | .lessThan => compareJson search actual filter.valueJson = some .lt
    | .lessThanOrEqual =>
      compareJson search actual filter.valueJson = some .lt ∨
        compareJson search actual filter.valueJson = some .eq
    | .greaterThan => compareJson search actual filter.valueJson = some .gt
    | .greaterThanOrEqual =>
      compareJson search actual filter.valueJson = some .gt ∨
        compareJson search actual filter.valueJson = some .eq
    | .contains => jsonContains actual filter.valueJson

/-! ### Visible heads -/

namespace Db

/-- A head outside any work unit. -/
def PublishedHead (db : Db) (key : EntityKey) (version : String) : Prop :=
  ⟨key, version⟩ ∈ db.heads

instance (db : Db) (key : EntityKey) (version : String) :
    Decidable (db.PublishedHead key version) :=
  inferInstanceAs (Decidable ((⟨key, version⟩ : EntityHeadRow) ∈ db.heads))

/-- A head as a work unit sees it: its own, or one of its baseline where it has none. -/
def VisibleHead (db : Db) (unit : String) (baseline : ℕ) (key : EntityKey) (version : String) :
    Prop :=
  ⟨unit, key, version⟩ ∈ db.unitHeads ∨
    ((∀ head ∈ db.unitHeads, ¬ (head.workUnitJson = unit ∧ head.key = key)) ∧
      version ∈ db.headsAt key baseline)

instance (db : Db) (unit : String) (baseline : ℕ) (key : EntityKey) (version : String) :
    Decidable (db.VisibleHead unit baseline key version) :=
  inferInstanceAs (Decidable ((⟨unit, key, version⟩ : WorkUnitHeadRow) ∈ db.unitHeads ∨
    ((∀ head ∈ db.unitHeads, ¬ (head.workUnitJson = unit ∧ head.key = key)) ∧
      version ∈ db.headsAt key baseline)))

end Db

/-! ### Candidates -/

structure MatchedVersion where
  entityType : String
  entityId : String
  valueJson : Value
  recordedAtUnixMs : ℕ
  score : ℚ

structure RetrievalCandidate where
  entityType : String
  entityId : String
  recordedAtUnixMs : ℕ
  score : ℚ
  deriving DecidableEq

/-- The text condition of a query. -/
def matchesText (text : Option String) (value : Value) : Bool :=
  match text with
  | none => true
  | some text => if text.length < 3 then search.contains text value else search.indexed text value

/-- The score of a match. -/
def textScore (db : Db) (text : Option String) (row : EntityVersionRow) : ℚ :=
  match text with
  | none => 0
  | some text => if text.length < 3 then 1 else search.score db text row

/-- `matching_versions`, over the heads that are `visible`. -/
def matchingVersions (db : Db) (query : RetrieveQuery) (visible : EntityKey → String → Bool) :
    List MatchedVersion :=
  db.versions.filterMap fun row =>
    match row.valueJson with
    | none => none
    | some value =>
      if visible row.key row.version ∧ row.key.scopeJson = query.scopeJson ∧ row.state = .active ∧
          matchesText search query.text value ∧
          query.entityTypes.all (row.key.entityType ∈ ·) ∧
          query.entityIds.all (row.key.entityId ∈ ·) then
        some { entityType := row.key.entityType, entityId := row.key.entityId, valueJson := value
               recordedAtUnixMs := row.recordedAtUnixMs, score := textScore search db query.text row }
      else none

/-- Enter a match into the map of candidates: an entity counts with its best score and its newest
match. -/
def addCandidate (candidates : List RetrievalCandidate) (version : MatchedVersion) :
    List RetrievalCandidate :=
  Table.upsert (fun candidate : RetrievalCandidate => (candidate.entityType, candidate.entityId))
    { entityType := version.entityType, entityId := version.entityId
      recordedAtUnixMs := version.recordedAtUnixMs, score := version.score }
    (fun candidate => { candidate with
      score := max candidate.score version.score
      recordedAtUnixMs := max candidate.recordedAtUnixMs version.recordedAtUnixMs }) candidates

/-- `compare_retrieval_keys`. -/
def compareRetrievalKeys (left right : RetrievalCandidate) (order : RetrieveOrder) : Ordering :=
  match order with
  | .relevance =>
    (compare right.score left.score).then <|
      (compare right.recordedAtUnixMs left.recordedAtUnixMs).then <|
        (compare left.entityType right.entityType).then (compare left.entityId right.entityId)
  | .newest =>
    (compare right.recordedAtUnixMs left.recordedAtUnixMs).then <|
      (compare left.entityType right.entityType).then (compare left.entityId right.entityId)
  | .oldest =>
    (compare left.recordedAtUnixMs right.recordedAtUnixMs).then <|
      (compare left.entityType right.entityType).then (compare left.entityId right.entityId)
  | .idAscending =>
    (compare left.entityId right.entityId).then (compare left.entityType right.entityType)
  | .idDescending =>
    (compare right.entityId left.entityId).then (compare right.entityType left.entityType)

/-- A cursor as the candidate it was taken from. -/
def RetrieveCursor.candidate (cursor : RetrieveCursor) : RetrievalCandidate :=
  { entityType := cursor.entityType, entityId := cursor.entityId
    recordedAtUnixMs := cursor.recordedAtUnixMs, score := cursor.score }

/-- `candidate_cursor`. -/
def candidateCursor (candidate : RetrievalCandidate) (order : RetrieveOrder)
    (queryFingerprint : String) : RetrieveCursor :=
  { order, queryFingerprint, score := candidate.score
    recordedAtUnixMs := candidate.recordedAtUnixMs
    entityType := candidate.entityType, entityId := candidate.entityId }

/-- `retrieve_candidates`, over the heads that are `visible`. -/
def retrieveCandidates (db : Db) (query : RetrieveQuery) (visible : EntityKey → String → Bool) :
    List RetrievalCandidate × Option RetrieveCursor :=
  let matched := (matchingVersions search db query visible).filter fun version =>
    query.filters.all fun filter => matchesFilter search version.valueJson filter
  let candidates := (matched.foldl addCandidate []).insertionSort
    fun left right => compareRetrievalKeys left right query.order ≠ .gt
  let rest := match query.after with
    | none => candidates
    | some cursor => candidates.filter fun candidate =>
        compareRetrievalKeys candidate cursor.candidate query.order = Ordering.gt
  let page := rest.take query.limit
  (page, if query.limit < rest.length then
      page.getLast?.map (candidateCursor · query.order query.fingerprint)
    else none)

/-- The entity of a candidate. -/
def RetrievalCandidate.key (scope : String) (candidate : RetrievalCandidate) : EntityKey :=
  ⟨scope, candidate.entityType, candidate.entityId⟩

/-- A candidate with the snapshot it is shown with. -/
def RetrievalCandidate.retrieved (scope : String) (candidate : RetrievalCandidate)
    (snapshot : EntitySnapshot) : RetrievedEntity :=
  { key := candidate.key scope, snapshot, score := candidate.score
    recordedAtUnixMs := candidate.recordedAtUnixMs }

/-! ### The calls -/

/-- `retrieve_entities` inside its transaction. -/
def Db.retrieveEntities (db : Db) (query : RetrieveQuery) : RetrievedPage :=
  let (candidates, nextCursor) := retrieveCandidates search db query
    fun key version => db.PublishedHead key version
  { entities := candidates.filterMap fun candidate =>
      (db.readEntitySnapshot (candidate.key query.scopeJson)).map
        (candidate.retrieved query.scopeJson)
    nextCursor }

/-- `retrieve_entities`. It does not sweep. -/
def retrieveEntities (db : Db) (clock : Clock) (query : RetrieveQuery)
    (consistency : ReadConsistency) : Reply (ConsistentRead RetrievedPage) :=
  transaction db (do
    match ← consistencyObservation db clock.observe query.scopeJson consistency
      (db.currentScopeCursor query.scopeJson) with
    | none => rollback .unavailable
    | some observation =>
      commitBeforeDeadline clock.commit consistency.deadlineUnixMs
        (db.advanceReadSessions query.scopeJson consistency observation.frontier)
        (.read (db.retrieveEntities search query) observation))

/-- One turn of the loop of `retrieve_entities_in_work_unit`: capture the entity, then read it. -/
def retrieveCaptured (unit scope : String) (found : Db × List RetrievedEntity)
    (candidate : RetrievalCandidate) : Except ProviderError (Db × List RetrievedEntity) := do
  let db ← found.1.captureWorkUnitEntity unit (candidate.key scope)
  match db.readWorkUnitSnapshot unit (candidate.key scope) with
  | some snapshot => return (db, found.2 ++ [candidate.retrieved scope snapshot])
  | none => return (db, found.2)

/-- `retrieve_entities_in_work_unit`. -/
def retrieveEntitiesInWorkUnit (db : Db) (clock : Clock) (workUnit : WorkUnit)
    (query : RetrieveQuery) (consistency : ReadConsistency) : Reply WorkUnitRetrieveOutcome :=
  sweepThen db clock fun db => transaction db (do
    let (state, db) ← db.ensureWorkUnit workUnit
    match closedOutcome state with
    | some outcome => commitBeforeDeadline clock.commit workUnit.deadlineUnixMs db outcome
    | none => do
      let unit := workUnit.identityJson
      let baseline ← db.workUnitBaseline unit
      match ← consistencyObservation db clock.observe workUnit.scopeJson consistency baseline with
      | none => rollback (.opened .unavailable)
      | some observation => do
        let (candidates, nextCursor) := retrieveCandidates search db query
          fun key version => db.VisibleHead unit baseline key version
        let (db, entities) ← candidates.foldlM (retrieveCaptured unit query.scopeJson) (db, [])
        commitBeforeDeadline clock.commit workUnit.deadlineUnixMs
          (db.advanceReadSessions workUnit.scopeJson consistency baseline)
          (.opened (.read { entities, nextCursor } observation)))

end Search

end Patchouli
