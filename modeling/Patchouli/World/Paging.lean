import Patchouli.Backend.Query
import Patchouli.Sqlite.Operation
import Patchouli.World.Views

/-!
# Pages of a retrieval

A client asks for the first page of a query and follows the cursors, each time with the limit it
likes. On a store that does not change between the pages, it ends up with every entity that matches,
once and in the order of the query, with or without a work unit.

A cursor that names no entity is refused, so the result rests on the `CHECK` constraints of
`patchouli_entity_version`: no row has an empty type or an empty id.

## Main results

* `Reachable.namesEntities` — every stored version names an entity
* `retrieveEntitiesInWorkUnit_page` — the pages an open unit is served
* `pages_partition` — the pages put together are the answer to the query
-/

namespace Patchouli

open Db

variable {A : Automerge}

/-! ### Stored names -/

/-- `CHECK (length(entity_type) > 0)` and `CHECK (length(entity_id) > 0)`. -/
def Db.NamesEntities (db : Db) : Prop :=
  ∀ row ∈ db.versions, row.key.entityType ≠ "" ∧ row.key.entityId ≠ ""

namespace Db.NamesEntities

variable {db old new : Db}

theorem of_keys (h : NamesEntities old)
    (hkeys : ∀ row ∈ new.versions, ∃ row' ∈ old.versions, row'.key = row.key) :
    NamesEntities new := by
  intro row hrow
  obtain ⟨row', hrow', hkey⟩ := hkeys row hrow
  exact hkey ▸ h row' hrow'

theorem congr (h : NamesEntities old) (hversions : new.versions = old.versions) :
    NamesEntities new := by
  rw [NamesEntities, hversions]
  exact h

theorem of_insert (h : NamesEntities old) {key : EntityKey}
    {versions : List StoredEntityVersion} {unit : Option String} {recordedAt : ℕ}
    (hinsert : old.insertEntityVersions key versions unit recordedAt = .ok new) :
    NamesEntities new := by
  obtain ⟨added, _, _, _, rfl, -, hadded⟩ := insertEntityVersions_frame hinsert
  intro row hrow
  rcases List.mem_append.mp hrow with hold | hnew
  · exact h row hold
  · obtain ⟨hkey, hnames⟩ := hadded row hnew
    exact hkey.symm ▸ hnames

/-- Every write statement keeps it so. -/
theorem kept : KeptByStatements (fun _ _ => True) (fun _ => True) NamesEntities where
  ordinary _ _ := trivial
  publication _ _ := trivial
  insertEntityVersions db h key versions unit recordedAt _ :=
    .of_forall (fun _ => trivial) fun new hinsert => h.of_insert hinsert
  replacePublishedHeads db h key heads := .of_forall (fun _ => trivial) fun new hreplace => by
    obtain ⟨-, -, -, rfl⟩ := replacePublishedHeads_eq_ok.mp hreplace
    exact h
  replaceWorkUnitHeads db h unit key heads := .of_forall (fun _ => trivial) fun new hreplace => by
    obtain ⟨-, -, -, -, rfl⟩ := replaceWorkUnitHeads_eq_ok.mp hreplace
    exact h
  insertChange db h _ _ _ _ _ _ := .of_forall (fun _ => trivial) fun r hchange => by
    obtain ⟨-, heq⟩ := insertChange_eq_ok hchange
    exact h.congr (by rw [heq])
  advanceWriteSessions db h _ _ _ := h
  advanceReadSessions db h _ _ _ := h
  publishEntityVersions db h key versions cursor := h.of_keys fun row hrow => by
    obtain ⟨row', hrow', rfl⟩ := List.mem_map.mp hrow
    exact ⟨row', hrow', by split <;> rfl⟩
  publishWorkUnitVersions db h unit key cursor := h.of_keys fun row hrow => by
    obtain ⟨row', hrow', rfl⟩ := List.mem_map.mp hrow
    exact ⟨row', hrow', by split <;> rfl⟩
  openWorkUnit db h _ _ _ _ := h
  captureWorkUnitEntity db h unit key := .of_forall (fun _ => trivial) fun new hcapture => by
    obtain ⟨_, _, rfl, -⟩ := captureWorkUnitEntity_frame hcapture
    exact h
  recordStagedMutation db h _ := h
  markClosing db h _ := h
  markCommitted db h _ _ := h
  expireWorkUnit db h identity now := .of_forall (fun _ => trivial) fun new hexpire => by
    obtain ⟨rfl, -⟩ := expireWorkUnit_spec hexpire
    exact h.of_keys fun row hrow => ⟨row, (List.mem_filter.mp hrow).1, rfl⟩
  publishUnitIdempotency db h unit recordedAt := .of_forall (fun _ => trivial) fun new hpublish => by
    obtain ⟨rfl, -⟩ := publishUnitIdempotency_spec hpublish
    exact h
  deleteOverdueIdempotency db h now := .of_forall (fun _ => trivial) fun new hdelete => by
    obtain ⟨bound, -, hdelete⟩ := Except.bind_eq_ok.mp hdelete
    simp only [Except.pure_eq_ok, Except.ok.injEq] at hdelete
    exact h.congr (by rw [← hdelete])
  insertIdempotency db h record _ _ := .of_forall (fun _ => trivial) fun new hinsert => by
    simp only [insertIdempotency, Except.bind_eq_ok, require_eq_ok, Except.pure_eq_ok,
      Except.ok.injEq] at hinsert
    obtain ⟨_, -, _, -, rfl⟩ := hinsert
    exact h
  insertWorkUnitIdempotency db h unit record _ _ := .of_forall (fun _ => trivial) fun new hinsert => by
    simp only [insertWorkUnitIdempotency, Except.bind_eq_ok, require_eq_ok, Except.pure_eq_ok,
      Except.ok.injEq] at hinsert
    obtain ⟨_, -, _, -, _, -, rfl⟩ := hinsert
    exact h
  recordRetention db h _ := h
  deleteOverdueChanges db h _ := h

theorem upkeep {K : Known} (h : NamesEntities old) (hstep : Upkeep K old new) :
    NamesEntities new := by
  cases hstep with
  | sessions => exact h
  | forget => exact h
  | note => exact h
  | prune => exact h
  | expire hexpiry =>
    obtain ⟨-, -, -, hexpire⟩ := hexpiry
    exact (kept.expireWorkUnit old h _ _).of_ok hexpire
  | openUnit => exact h
  | capture _ _ _ hcapture => exact (kept.captureWorkUnitEntity old h _ _).of_ok hcapture

theorem effect {K : Known} (h : NamesEntities old) (hstep : Effect A K old new) :
    NamesEntities new := by
  cases hstep with
  | upkeep hupkeep => exact h.upkeep hupkeep
  | commit _ _ hcommit =>
    exact (kept.commitEntityInTransaction h fun _ _ => trivial).of_ok hcommit
  | record _ hinsert =>
    simp only [insertIdempotency, Except.bind_eq_ok, require_eq_ok, Except.pure_eq_ok,
      Except.ok.injEq] at hinsert
    obtain ⟨_, -, _, -, rfl⟩ := hinsert
    exact h
  | stage _ _ _ _ _ _ hstage =>
    obtain ⟨mid, hinsert, hreplace⟩ := Except.bind_eq_ok.mp hstage
    have hmid := (kept.recordStagedMutation old h _).of_insert hinsert
    exact (kept.replaceWorkUnitHeads mid hmid _ _ _).of_ok hreplace
  | stageRecord _ _ _ hinsert =>
    simp only [insertWorkUnitIdempotency, Except.bind_eq_ok, require_eq_ok, Except.pure_eq_ok,
      Except.ok.injEq] at hinsert
    obtain ⟨_, -, _, -, _, -, rfl⟩ := hinsert
    exact h
  | close => exact h
  | resolve _ _ _ _ _ _ hinsert hreplace =>
    exact (kept.replaceWorkUnitHeads _ (h.of_insert hinsert) _ _ _).of_ok hreplace
  | publish _ _ hpublish => exact (kept.finishWorkUnitPublication h _ _).of_ok hpublish

end Db.NamesEntities

/-- **Every stored version names an entity.** -/
theorem Reachable.namesEntities {env : Environment} {w : World} (hlaw : env.automerge.Lawful)
    (h : Reachable env w) : w.db.NamesEntities := by
  induction h with
  | start => exact fun _ hrow => nomatch hrow
  | @step w event h _ ih =>
    have heffects := w.step_effects hlaw (Reachable.sound hlaw h) event
    exact Relation.ReflTransGen.rec ih (fun _ hstep hmid => hmid.effect hstep) heffects

/-! ### The pages of a unit -/

/-- **`retrieve_entities_in_work_unit` serves the pages of what the unit sees.** Where nothing is
overdue and the unit is open, that is what it sees of the store as it is. -/
theorem retrieveEntitiesInWorkUnit_page {db : Db} (inv : Inv A db) (hopen : OpenHeads db)
    {search : Search} {clock : Clock} {workUnit : WorkUnit} {query : RetrieveQuery}
    {consistency : ReadConsistency} (hscope : workUnit.scopeJson = query.scopeJson)
    (hsweep : db.sweepExpiredWorkUnits clock.sweep = ⟨.ok (), db⟩)
    (hensure : db.ensureWorkUnit workUnit = .ok (.opened, db)) {page : RetrievedPage}
    {observation : ReadObservation}
    (h : (retrieveEntitiesInWorkUnit search db clock workUnit query consistency).outcome =
      .ok (.opened (.read page observation))) :
    ∃ row, row.identityJson = workUnit.identityJson ∧
      (Sight.inUnit row).Open db query.scopeJson ∧
      page = (Sight.inUnit row).page search db query := by
  obtain ⟨swept, base, row, hswept, hbase, -, -, hid, hsight, hpage, -⟩ :=
    retrieval_reads inv hopen hscope h
  obtain rfl : swept = db := by
    rw [hsweep] at hswept
    exact (Prod.mk.inj (congrArg (fun reply => (reply.outcome, reply.db)) hswept)).2.symm
  obtain rfl : base = swept := by
    rw [hensure] at hbase
    simpa using hbase.symm
  exact ⟨row, hid, hsight, hpage⟩

/-! ### Following the cursors -/

section Follow

variable {search : Search} {db : Db} {codec : QueryCodec} {identity : QueryIdentity} {sight : Sight}

/-- The cursor a page leaves behind a candidate. -/
def QueryCodec.cursor (codec : QueryCodec) (identity : QueryIdentity)
    (candidate : RetrievalCandidate) : RetrieveCursor :=
  candidateCursor candidate identity.order (codec.digest identity)

/-- The candidates of a query do not depend on the page it asks for. -/
def QueryCodec.candidates (codec : QueryCodec) (search : Search) (db : Db)
    (identity : QueryIdentity) (sight : Sight) : List RetrievalCandidate :=
  sortedCandidates search db (codec.query identity none 0) (sight.visible db)

/-- A candidate is named by a row. -/
theorem Db.NamesEntities.candidate (hnames : db.NamesEntities) {candidate : RetrievalCandidate}
    (h : candidate ∈ codec.candidates search db identity sight) :
    candidate.entityType ≠ "" ∧ candidate.entityId ≠ "" := by
  have hkey : (candidate.key identity.scopeJson).scopeJson =
      (codec.query identity none 0).scopeJson := rfl
  obtain ⟨row, hrow, hrowkey, -⟩ := (pair_mem_sortedCandidates hkey).mp (List.mem_map_of_mem h)
  have hnonempty := hnames row hrow
  rwa [hrowkey] at hnonempty

/-- **The engine serves the pages of the sorted candidates.** -/
theorem QueryCodec.serves (hnames : db.NamesEntities)
    (hkeeps : ∀ candidate ∈ codec.candidates search db identity sight,
      codec.Keeps (codec.cursor identity candidate)) :
    Paging.Serves (compareRetrievalKeys · · identity.order)
      (codec.candidates search db identity sight) (·.shown identity.scopeJson (sight.read db))
      (fun candidate => codec.encode (codec.cursor identity candidate))
      (codec.retrieve (sight.page search db) identity) := by
  have hpage : ∀ (after : Option RetrieveCursor) (limit : ℕ),
      sight.page search db (codec.query identity after limit) =
        { entities := (Paging.page (compareRetrievalKeys · · identity.order)
            (codec.candidates search db identity sight)
            (after.map RetrieveCursor.candidate) limit).1.filterMap
              (·.shown identity.scopeJson (sight.read db))
          nextCursor := (Paging.page (compareRetrievalKeys · · identity.order)
            (codec.candidates search db identity sight)
            (after.map RetrieveCursor.candidate) limit).2.map (codec.cursor identity) } := by
    intro after limit
    rw [Sight.page, retrieveCandidates_eq]
    rfl
  constructor
  · intro limit _
    simp only [retrieve, parseQuery, parseCursor, bind, Except.bind, pure, Except.pure, hpage,
      Option.map_map]
    rfl
  · intro candidate hcandidate limit _
    obtain ⟨htype, hid⟩ := hnames.candidate hcandidate
    have hparse := parseCursor_encode (hkeeps candidate hcandidate) htype hid
    have hquery : codec.parseQuery identity (some (codec.encode (codec.cursor identity candidate)))
        limit = .ok (codec.query identity (some (codec.cursor identity candidate)) limit) := by
      rw [parseQuery]
      exact congrArg (· >>= _) hparse
    simp only [retrieve, hquery, bind, Except.bind, pure, Except.pure, hpage, Option.map_map]
    rfl

end Follow

/-- **The pages of a query are a partition of its answer.** On any store, for any query under any
order, with or without a unit, and whatever limits the client asks with: following the cursors ends,
after at most one request more than there are hits, and the pages put together are all entities that
match, once each, in the order of the query. -/
theorem pages_partition {env : Environment} {w : World} (hlaw : env.automerge.Lawful)
    (hreach : Reachable env w) {codec : QueryCodec} {identity : QueryIdentity} {sight : Sight}
    (hsight : sight.Open w.db identity.scopeJson)
    (hkeeps : ∀ candidate ∈ codec.candidates env.search w.db identity sight,
      codec.Keeps (codec.cursor identity candidate))
    {limits : ℕ → ℕ} (hlimits : ∀ i, 1 ≤ limits i) :
    ∃ hits, Lists env.search w.db (codec.query identity none (limits 0)) (sight.visible w.db)
        (sight.read w.db) hits ∧
      ∀ fuel, hits.length < fuel → ∃ pages,
        Paging.follow (codec.retrieve (sight.page env.search w.db) identity) fuel limits none =
          .ok (some pages) ∧ pages.flatten = hits := by
  have hnames := hreach.namesEntities hlaw
  have hshows := Sight.shows (hreach.sound hlaw).inv (hreach.openHeads hlaw) hsight
  have hlists : Lists env.search w.db (codec.query identity none (limits 0)) (sight.visible w.db)
      (sight.read w.db) ((codec.candidates env.search w.db identity sight).filterMap
        (·.shown identity.scopeJson (sight.read w.db))) :=
    Shows.lists (show Shows w.db (codec.query identity none (limits 0)).scopeJson _ _ from hshows)
  refine ⟨_, hlists, fun fuel hfuel => ?_⟩
  have hall : ((codec.candidates env.search w.db identity sight).filterMap
      (·.shown identity.scopeJson (sight.read w.db))).length =
        (codec.candidates env.search w.db identity sight).length := by
    rw [List.filterMap_length_eq_length]
    exact fun candidate hcandidate => hshows.shown_isSome hcandidate
  have hsorted : (codec.candidates env.search w.db identity sight).Pairwise
      (compareRetrievalKeys · · identity.order = .lt) :=
    @sortedCandidates_pairwise env.search w.db (codec.query identity none 0) _
  exact (QueryCodec.serves hnames hkeeps).follow_eq hsorted hlimits (hall ▸ hfuel)

/-- All notes, by their ids. -/
def notesById : QueryIdentity where
  scopeJson := "scope"
  entityTypes := some ["note"]
  text := none
  entityIds := none
  filters := []
  order := .idAscending

/-- The cursor after the note. -/
def noteCursor : RetrieveCursor where
  order := .idAscending
  queryFingerprint := "5feceb66"
  score := 0
  recordedAtUnixMs := 5
  entityType := "note"
  entityId := "n"

/-- The note's cursor as it is sent. -/
def noteCursorText : String :=
  "\x7b\"order\":\"id_ascending\",\"query_fingerprint\":\"5feceb66\",\"score\":0.0," ++
    "\"recorded_at_unix_ms\":5,\"entity_type\":\"note\",\"entity_id\":\"n\"\x7d"

/-- What is answered where the note's cursor is the only one. -/
def noteCodec : QueryCodec where
  digest _ := "5feceb66"
  encode cursor := if cursor = noteCursor then noteCursorText else ""
  decode text := if text = noteCursorText then .ok noteCursor else .error "expected value"

/-- The pages of one note, one by one. -/
theorem one_note_is_a_page :
    ∃ hits, Lists noteEnvironment.search onlyNote.db (noteCodec.query notesById none 1)
        (Sight.published.visible onlyNote.db) (Sight.published.read onlyNote.db) hits ∧
      ∀ fuel, hits.length < fuel → ∃ pages,
        Paging.follow (noteCodec.retrieve
            (Sight.published.page noteEnvironment.search onlyNote.db) notesById) fuel
          (fun _ => 1) none = .ok (some pages) ∧ pages.flatten = hits := by
  have hkeeps : ∀ candidate ∈ noteCodec.candidates noteEnvironment.search onlyNote.db notesById
      .published, noteCodec.Keeps (noteCodec.cursor notesById candidate) := by
    unfold QueryCodec.Keeps
    decide
  have hsight : Sight.published.Open onlyNote.db notesById.scopeJson := trivial
  have hlimits : ∀ i, 1 ≤ (fun _ : ℕ => 1) i := fun _ => le_rfl
  exact pages_partition (show noteEnvironment.automerge.Lawful from noAutomerge_lawful)
    onlyNote_reachable hsight hkeeps hlimits

end Patchouli
