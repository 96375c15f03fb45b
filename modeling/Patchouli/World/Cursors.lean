import Patchouli.Backend.Fingerprint
import Patchouli.Sqlite.TextSearch
import Patchouli.World.Paging

/-!
# Cursors are bound to their queries

A page announces the next one by a cursor with the name of its last entity and the fingerprint of
its query. Stored entities have names, so of what `parse_cursor` checks only the order and the
fingerprint can fail, and these are what `Backend.Fingerprint` compares.

## Main results

* `cursor_bound_to_query`
-/

namespace Patchouli

open Json (Value FloatText)

section Cursors

variable {search : Search} {db : Db} {query : RetrieveQuery} {sight : Sight}

/-- A cursor names the query of its page and an entity. -/
theorem Db.NamesEntities.nextCursor (hnames : db.NamesEntities) {cursor : RetrieveCursor}
    (h : (sight.page search db query).nextCursor = some cursor) :
    cursor.order = query.order ∧ cursor.queryFingerprint = query.fingerprint ∧
      cursor.entityType ≠ "" ∧ cursor.entityId ≠ "" := by
  rw [Sight.page, retrieveCandidates_eq] at h
  obtain ⟨candidate, hcandidate, rfl⟩ := Option.map_eq_some_iff.mp h
  have hmem : candidate ∈ sortedCandidates search db query (sight.visible db) :=
    Paging.mem_of_page_next hcandidate
  obtain ⟨row, hrow, hrowkey, -⟩ :=
    (pair_mem_sortedCandidates (show (candidate.key query.scopeJson).scopeJson = _ from rfl)).mp
      (List.mem_map_of_mem hmem)
  have hnonempty := hnames row hrow
  rw [hrowkey] at hnonempty
  exact ⟨rfl, rfl, hnonempty⟩

end Cursors

/-- **A cursor is bound to its query.** Of two accepted queries and a cursor to the next page of the
first, the second takes the cursor exactly when the two ask the same: the same scope, types, text,
ids, predicates and order, however they were written and whatever limits they come with. -/
theorem cursor_bound_to_query {env : Environment} {w : World} (hlaw : env.automerge.Lawful)
    (hreach : Reachable env w) {texts : QueryText} (htexts : texts.Lawful)
    {scope₁ scope₂ text₁ text₂ text₃ : String} {types₁ types₂ : List String}
    {limit₁ limit₂ limit₃ : ℕ} {query₁ query₂ : RetrieveQuery}
    (h₁ : texts.parseQuery scope₁ types₁ text₁ limit₁ = .ok query₁)
    (h₂ : texts.parseQuery scope₂ types₂ text₂ limit₂ = .ok query₂)
    {object₁ object₂ : List (String × Value)} (hread₁ : texts.read text₁ = .ok (.object object₁))
    (hread₂ : texts.read text₂ = .ok (.object object₂)) {sight : Sight} {cursor : RetrieveCursor}
    (hcursor : (sight.page env.search w.db query₁).nextCursor = some cursor)
    (hrecalls : texts.Recalls cursor)
    (hread₃ : texts.read text₃ = .ok (.object (withCursor object₂ (texts.codec.encode cursor)))) :
    (∃ query, texts.parseQuery scope₂ types₂ text₃ limit₃ = .ok query) ↔
      asked scope₁ types₁ object₁ = asked scope₂ types₂ object₂ := by
  obtain ⟨horder, hfingerprint, htype, hid⟩ := (hreach.namesEntities hlaw).nextCursor hcursor
  exact QueryText.parseQuery_cursor_iff htexts h₁ h₂ hread₁ hread₂ horder hfingerprint htype hid
    hrecalls hread₃

/-! ### Two notes -/

/-- A query for two notes, as one client writes it. -/
def twoIds : List (String × Value) :=
  [("ids", .array [.string "m", .string "n"]), ("order", .string "id_asc")]

/-- The same query, as another writes it. -/
def twoIdsTurned : List (String × Value) :=
  [("ids", .array [.string "n", .string "m"]), ("order", .string "id_asc")]

/-- What both are recognized by. -/
def twoIdsIdentity : QueryIdentity where
  scopeJson := "scope"
  entityTypes := some ["note"]
  text := none
  entityIds := some ["m", "n"]
  filters := []
  order := .idAscending

/-- The digest of that identity; any other text is digested to something else. -/
def noteDigest (text : String) : String :=
  if text = jsonText noteFloats (twoIdsIdentity.toJson noteFloats) then
    "46b1557654a461d2ae92c8f935b7334f2b349d053702431718a0825d928c446d"
  else "-" ++ text

/-- The cursor after the note "m". -/
def cursorAfterM : RetrieveCursor where
  order := .idAscending
  queryFingerprint := "46b1557654a461d2ae92c8f935b7334f2b349d053702431718a0825d928c446d"
  score := 0
  recordedAtUnixMs := 5
  entityType := "note"
  entityId := "m"

/-- The query as one client sends it. -/
def twoIdsText : String := "\x7b\"ids\":[\"m\",\"n\"],\"order\":\"id_asc\"\x7d"

/-- The query as another sends it. -/
def twoIdsTurnedText : String := "\x7b\"ids\":[\"n\",\"m\"],\"order\":\"id_asc\"\x7d"

/-- The second query, going on from the first one's page. -/
def continuedText : String :=
  jsonText noteFloats (.object (withCursor twoIdsTurned (jsonText noteFloats cursorAfterM.toJson)))

/-- What is read where these texts are the only ones. -/
def noteTexts : QueryText where
  floats := noteFloats
  sha256 := noteDigest
  read text :=
    if text = twoIdsText then .ok (.object twoIds)
    else if text = twoIdsTurnedText then .ok (.object twoIdsTurned)
    else if text = continuedText then
      .ok (.object (withCursor twoIdsTurned (jsonText noteFloats cursorAfterM.toJson)))
    else .error "expected value"
  decode text :=
    if text = jsonText noteFloats cursorAfterM.toJson then .ok cursorAfterM
    else .error "expected value"

theorem noteDigest_injective : Function.Injective noteDigest := by
  intro a b h
  unfold noteDigest at h
  have hmarked : ∀ text : String, "-" ++ text ≠
      "46b1557654a461d2ae92c8f935b7334f2b349d053702431718a0825d928c446d" := by
    intro text heq
    have := congrArg (fun s => s.toList.head?) heq
    simp at this
  split at h <;> split at h
  · simp_all
  · exact absurd h.symm (hmarked b)
  · exact absurd h (hmarked a)
  · exact String.toList_injective (List.append_cancel_left (by
      simpa only [String.toList_append] using congrArg String.toList h))

theorem noteTexts_read (text : String) : noteTexts.read text =
    if text = twoIdsText then .ok (.object twoIds)
    else if text = twoIdsTurnedText then .ok (.object twoIdsTurned)
    else if text = continuedText then
      .ok (.object (withCursor twoIdsTurned (jsonText noteFloats cursorAfterM.toJson)))
    else .error "expected value" := rfl

theorem noteTexts_decode (text : String) : noteTexts.decode text =
    if text = jsonText noteFloats cursorAfterM.toJson then .ok cursorAfterM
    else .error "expected value" := by
  dsimp only [noteTexts]

theorem noteTexts_encode (cursor : RetrieveCursor) :
    noteTexts.codec.encode cursor = jsonText noteFloats cursor.toJson := rfl

theorem noteTexts_lawful : noteTexts.Lawful := by
  refine ⟨noteDigest_injective, fun text value h => ?_⟩
  have hobject : ∀ object : List (String × Value), (object.map (·.1)).Pairwise (· < ·) →
      (∀ entry ∈ object, entry.2.Normal) → (Value.object object).Normal :=
    fun object hkeys hvalues => ⟨⟨trivial, hkeys⟩, Value.AllFields.iff_forall.mpr hvalues⟩
  have hstring : ∀ s, (Value.string s).Normal := fun s => ⟨trivial, trivial⟩
  have hids : ∀ a b, (Value.array [.string a, .string b]).Normal :=
    fun a b => ⟨⟨trivial, trivial⟩, hstring a, hstring b, trivial⟩
  rw [noteTexts_read] at h
  split at h
  · cases h
    refine hobject _ (by decide) ?_
    simp [twoIds, hstring, hids]
  · split at h
    · cases h
      refine hobject _ (by decide) ?_
      simp [twoIdsTurned, hstring, hids]
    · split at h
      · cases h
        refine hobject _ ?_ ?_
        · simp only [withCursor, twoIdsTurned]
          decide
        · intro entry hentry
          rcases Table.mem_insertEntry hentry with rfl | hentry
          · exact hstring _
          · simp only [twoIdsTurned, List.mem_cons, List.not_mem_nil, or_false] at hentry
            rcases hentry with rfl | rfl
            · exact hids _ _
            · exact hstring _
      · cases h

theorem cursorAfterM_recalled : noteTexts.Recalls cursorAfterM := by
  refine ⟨cursorAfterM, ?_, rfl, rfl, rfl, rfl⟩
  rw [noteTexts_decode, noteTexts_encode, if_pos rfl]

theorem read_twoIds : noteTexts.read twoIdsText = .ok (.object twoIds) := by
  rw [noteTexts_read, if_pos rfl]

theorem read_twoIdsTurned : noteTexts.read twoIdsTurnedText = .ok (.object twoIdsTurned) := by
  rw [noteTexts_read, if_neg (by decide), if_pos rfl]

theorem read_continued : noteTexts.read continuedText =
    .ok (.object (withCursor twoIdsTurned (noteTexts.codec.encode cursorAfterM))) := by
  have hthird : continuedText.toList[2]? = some 'c' := by
    rw [continuedText, jsonText, String.toList_ofList]
    rfl
  have hother : ∀ text : String, text.toList[2]? ≠ some 'c' → continuedText ≠ text := by
    rintro text htext rfl
    exact htext hthird
  rw [noteTexts_read, if_neg (hother _ (by decide)), if_neg (hother _ (by decide)), if_pos rfl,
    noteTexts_encode]

/-- Two notes. -/
def twoNotes : World :=
  World.after noteEnvironment [.arrive (createNote .null none false) (readingsAt 5),
    .advance 0 (clockAt 5), .advance 0 (clockAt 5),
    .arrive (noteRequest (.create "note" (some "m") .null) none false []) (readingsAt 5),
    .advance 1 (clockAt 5), .advance 1 (clockAt 5)]

/-- The first of two notes, asked for by two clients. -/
theorem other_client_goes_on :
    (∃ query, noteTexts.parseQuery "scope" ["note"] continuedText 5 = .ok query) ↔
      asked "scope" ["note"] twoIds = asked "scope" ["note"] twoIdsTurned := by
  have hfirst : noteTexts.parseQuery "scope" ["note"] twoIdsText 1 =
      .ok (noteTexts.codec.query twoIdsIdentity none 1) := by
    rw [QueryText.parseQuery, read_twoIds]
    rfl
  have hsecond : noteTexts.parseQuery "scope" ["note"] twoIdsTurnedText 1 =
      .ok (noteTexts.codec.query twoIdsIdentity none 1) := by
    rw [QueryText.parseQuery, read_twoIdsTurned]
    rfl
  have hcursor : (Sight.published.page noteEnvironment.search twoNotes.db
      (noteTexts.codec.query twoIdsIdentity none 1)).nextCursor = some cursorAfterM := by
    decide +kernel
  exact cursor_bound_to_query (show noteEnvironment.automerge.Lawful from noAutomerge_lawful)
    (World.after_reachable noteEnvironment _) noteTexts_lawful hfirst hsecond read_twoIds
    read_twoIdsTurned hcursor
    cursorAfterM_recalled read_continued

end Patchouli
