import Patchouli.Artifact.Store
import Patchouli.World.Read

/-!
# Artifacts over the wire

An artifact is an entity that names an object of the store. Each chunk of a download is a request of
its own, which reads the entity, and then the object its value names; the client keeps asking for
the version the first chunk was of. In between, the entity is updated and deleted and other uploads
are committed.

A version has one value, a value names one object, and an object is never written again; so what a
download completes with is the content of one version.

## Main definitions

* `downloadArtifactChunk` — the request
* `ArtifactDownload.receive` — the client
* `Downloading`, `Downloaded` — a download amid everything else

## Main results

* `Downloaded.content` — the bytes of a download are those of one version
* `artifact_download_undoes_upload`
-/

namespace Patchouli

open Db Relation

/-! ### Artifact values -/

/-- `ArtifactPlacement`. -/
inductive ArtifactPlacement where
  | managed (provider key : String)
  | indexed (provider locator : String) (revision : Option String)

/-- `ArtifactValue`. -/
structure ArtifactValue where
  mediaType : String
  name : Option String
  byteLength : Option ℕ
  digest : Option String
  placement : ArtifactPlacement
  metadata : Json.Value

/-- `serde_json` on artifact values. -/
structure ArtifactSerde where
  toValue : ArtifactValue → Json.Value
  fromValue : Json.Value → Except String ArtifactValue

/-- A value is read as it was written; its length is a `u64`. -/
def ArtifactSerde.RoundTrips (S : ArtifactSerde) : Prop :=
  ∀ value : ArtifactValue, (∀ length ∈ value.byteLength, length < 2 ^ 64) →
    S.fromValue (S.toValue value) = .ok value

/-- `ARTIFACT_ENTITY_TYPE`. -/
def artifactEntityType : String := "artifact"

/-- The value of an uploaded artifact. -/
def uploadedValue (data : ArtifactUploadBeginData) (stored : StoredArtifact) : ArtifactValue where
  mediaType := data.mediaType
  name := data.name
  byteLength := some stored.byteLength
  digest := some stored.digest
  placement := .managed stored.provider stored.key
  metadata := data.metadata

/-- The creation that `ARTIFACT_UPLOAD_COMMIT` asks for. -/
def uploadedMutation (S : ArtifactSerde) (data : ArtifactUploadBeginData)
    (stored : StoredArtifact) : Mutation :=
  .create artifactEntityType data.id (S.toValue (uploadedValue data stored))

/-! ### A chunk -/

inductive ArtifactDownloadError where
  | backend (error : BackendError)
  | store (error : ArtifactStoreError)
  | internal (detail : String)
  deriving DecidableEq

/-- `ArtifactDownloadChunkData`. -/
structure ArtifactDownloadChunkData where
  id : String
  version : Option String
  offset : ℕ
  maxBytes : ℕ

/-- `ArtifactDownloadChunkResult`. -/
structure ArtifactDownloadChunk where
  metaFields : Meta
  entity : EntityVersion
  offset : ℕ
  nextOffset : ℕ
  eof : Bool
  bytesBase64 : String
  deriving DecidableEq

/-- The clock of the server in a download request. -/
structure DownloadReadings where
  arrived : ℕ
  read : ReadReadings
  selected : ℕ
  served : ℕ

/-- An active variant: its entity, its name and its value. -/
def activeVariant : EntityVersion → Option (EntityRef × String × Json.Value)
  | .active entityRef version value => some (entityRef, version, value)
  | .deleted .. => none

/-- The variant that is downloaded. -/
def selectVariant (version : Option String) (variants : List EntityVersion) :
    Except BackendError (EntityRef × String × Json.Value) :=
  let selected : Except BackendError (Option (EntityRef × String × Json.Value)) :=
    match version with
    | some version => .ok ((variants.filterMap activeVariant).find? (·.2.1 = version))
    | none =>
      if variants.length = 1 then .ok (variants.filterMap activeVariant).head?
      else .error (BackendError.headsMoved (variants.map (·.version)))
  match selected with
  | .error error => .error error
  | .ok none => .error (BackendError.new .notFound "artifact version was not found")
  | .ok (some variant) => .ok variant

/-- The digest a key names, as a descriptor spells it. -/
def keyDigest (key : String) : Option String :=
  (key.toList.dropPrefix? "sha256/".toList).map fun digest => "sha256:" ++ String.ofList digest

section Chunk

variable (C : ByteCodec) (S : ArtifactSerde) (selection : PolicySelection) (deadline : Option ℕ)
  (readings : DownloadReadings) (data : ArtifactDownloadChunkData)

/-- What a value places in this store. -/
def managedPlacement (store : ArtifactStore) (artifact : ArtifactValue) :
    Except ArtifactDownloadError (String × String) :=
  match artifact.placement with
  | .indexed .. => .error (.backend (BackendError.new .unsupportedCapability
      "indexed artifacts are read through their source provider"))
  | .managed provider key =>
    if provider ≠ store.provider then
      .error (.backend (BackendError.new .unsupportedCapability
        ("artifact is managed by provider " ++ debugString provider)))
    else .ok (provider, key)

/-- The descriptor of an artifact against what was read. -/
def checkDescriptor (artifact : ArtifactValue) (key : String) (chunk : DownloadChunk) :
    Except ArtifactDownloadError Unit :=
  if artifact.byteLength ≠ some chunk.byteLength ∨ artifact.digest ≠ keyDigest key then
    .error (.internal "managed artifact descriptor does not match stored content")
  else .ok ()

/-- `download_artifact_chunk` after its read. -/
def serveChunk (store : ArtifactStore) (read : ReadEntityResult) :
    Except ArtifactDownloadError ArtifactDownloadChunk := do
  (checkDeadline deadline readings.selected).mapError .backend
  let (entityRef, version, value) ← (selectVariant data.version read.variants).mapError .backend
  let artifact ← (S.fromValue value).mapError .internal
  let (provider, key) ← managedPlacement store artifact
  let chunk ← (store.read C provider key data.offset data.maxBytes).mapError .store
  checkDescriptor artifact key chunk
  (checkDeadline deadline readings.served).mapError .backend
  return {
    metaFields := read.metaFields
    entity := .active entityRef version value
    offset := data.offset
    nextOffset := chunk.nextOffset
    eof := chunk.eof
    bytesBase64 := chunk.bytesBase64 }

/-- The entity of a download request. -/
def artifactRef (id : String) : EntityRef := ⟨artifactEntityType, id⟩

/-- The read of a download request. -/
def readArtifact (db : Db) (clock : Clock) : Except BackendError ReadEntityResult × Db :=
  match checkDeadline deadline readings.arrived with
  | .error error => (.error error, db)
  | .ok () => engineRead selection (artifactRef data.id) deadline readings.read db clock

/-- `download_artifact_chunk`: the entity as it is in the database, and later its object. -/
def downloadArtifactChunk (db : Db) (clock : Clock) (store : ArtifactStore) :
    Except ArtifactDownloadError ArtifactDownloadChunk × Db :=
  let (outcome, db) := readArtifact selection deadline readings data db clock
  ((outcome.mapError .backend).bind (serveChunk C S deadline readings data store), db)

end Chunk

/-! ### A download -/

/-- The variables of `downloadArtifact`. -/
structure ArtifactDownload where
  selectedVersion : Option String
  offset : ℕ
  chunks : List (List UInt8)

inductive DownloadProgress where
  | more (download : ArtifactDownload)
  | finished (bytes : List UInt8)

/-- The loop of `downloadArtifact`. `Buffer.from` does not fail. -/
def ArtifactDownload.receive (C : ByteCodec) (download : ArtifactDownload)
    (result : ArtifactDownloadChunk) : Except String DownloadProgress :=
  let bytes := (C.decode result.bytesBase64).getD []
  let selectedVersion := download.selectedVersion.getD result.entity.version
  if result.offset ≠ download.offset ∨ result.nextOffset ≠ download.offset + bytes.length then
    .error "Patchouli artifact download returned an invalid offset"
  else if result.entity.version ≠ selectedVersion then
    .error "Patchouli artifact changed during download"
  else if result.eof then .ok (.finished (download.chunks ++ [bytes]).flatten)
  else if bytes = [] then .error "Patchouli artifact download did not advance"
  else .ok (.more ⟨some selectedVersion, result.nextOffset, download.chunks ++ [bytes]⟩)

/-- What a download asks for, with its metadata. -/
structure DownloadRequest where
  selection : PolicySelection
  deadline : Option ℕ
  id : String
  version : Option String
  maxBytes : ℕ

section Downloading

variable (env : Environment) (C : ByteCodec) (contents : Set (List UInt8)) (S : ArtifactSerde)
  (request : DownloadRequest)

/-- The next request of a download. -/
def DownloadRequest.chunk (download : ArtifactDownload) : ArtifactDownloadChunkData :=
  ⟨request.id, download.selectedVersion, download.offset, request.maxBytes⟩

/-- The world and the archive, in the course of a download. Anything may happen between its
requests, and to the archive between the two reads of a request. -/
inductive Downloading : World → Archive → ArtifactDownload → Prop
  | begin {w : World} {a : Archive} (hw : Reachable env w) (ha : ArchiveReached C contents a) :
    Downloading w a ⟨request.version, 0, []⟩
  | events {w w' : World} {a a' : Archive} {download : ArtifactDownload}
    (h : Downloading w a download) (hw : Runs env w w') (ha : ArchiveRuns C contents a a') :
    Downloading w' a' download
  | chunk {w : World} {a a' : Archive} {download next : ArtifactDownload}
    (h : Downloading w a download) (ha : ArchiveRuns C contents a a') (clock : Clock)
    (readings : DownloadReadings) {db : Db} {result : ArtifactDownloadChunk}
    (hresult : downloadArtifactChunk C S request.selection request.deadline readings
      (request.chunk download) w.db clock a'.store = (.ok result, db))
    (hreceive : download.receive C result = .ok (.more next)) :
    Downloading { w with db } a' next

/-- A download completed. -/
inductive Downloaded : World → Archive → List UInt8 → Prop
  | finished {w : World} {a a' : Archive} {download : ArtifactDownload} {bytes : List UInt8}
    (h : Downloading env C contents S request w a download) (ha : ArchiveRuns C contents a a')
    (clock : Clock) (readings : DownloadReadings) {db : Db} {result : ArtifactDownloadChunk}
    (hresult : downloadArtifactChunk C S request.selection request.deadline readings
      (request.chunk download) w.db clock a'.store = (.ok result, db))
    (hreceive : download.receive C result = .ok (.finished bytes)) :
    Downloaded { w with db } a' bytes

end Downloading

/-! ### What a version contains -/

/-- The value of an artifact describes some bytes. -/
def Describes (C : ByteCodec) (S : ArtifactSerde) (value : Json.Value) (bytes : List UInt8) :
    Prop :=
  ∃ artifact provider, S.fromValue value = .ok artifact ∧
    artifact.byteLength = some bytes.length ∧
    artifact.digest = some ("sha256:" ++ C.sha256 bytes) ∧
    artifact.placement = .managed provider ("sha256/" ++ C.sha256 bytes)

section Describes

variable {C : ByteCodec} {S : ArtifactSerde} {value : Json.Value} {bytes bytes' : List UInt8}

/-- A value names one digest. -/
theorem Describes.digest_eq (h : Describes C S value bytes) (h' : Describes C S value bytes') :
    C.sha256 bytes = C.sha256 bytes' := by
  obtain ⟨artifact, _, hartifact, -, hdigest, -⟩ := h
  obtain ⟨artifact', _, hartifact', -, hdigest', -⟩ := h'
  rw [hartifact] at hartifact'
  cases hartifact'
  rw [hdigest] at hdigest'
  exact (String.append_right_inj _).mp (Option.some.inj hdigest')

/-- The value of an upload describes the bytes that were uploaded. -/
theorem describes_uploaded (hserde : S.RoundTrips) (data : ArtifactUploadBeginData)
    (provider : String) (hlength : bytes.length < 2 ^ 64) :
    Describes C S (S.toValue (uploadedValue data (storedArtifact C provider bytes))) bytes :=
  ⟨_, provider, hserde _ fun _ h => Option.some.inj h ▸ hlength, rfl, rfl, rfl⟩

theorem keyDigest_key (digest : String) : keyDigest ("sha256/" ++ digest) =
    some ("sha256:" ++ digest) := by
  unfold keyDigest
  rw [String.toList_append, List.dropPrefix?_append_of_beq _ (beq_self_eq_true _), Option.map_some,
    String.ofList_toList]

end Describes

/-! ### What a chunk is of -/

section Chunk

variable {C : ByteCodec} {contents : Set (List UInt8)} {S : ArtifactSerde} {a : Archive}
  {readings : DownloadReadings} {data : ArtifactDownloadChunkData} {deadline : Option ℕ}
  {selection : PolicySelection}

theorem mem_activeVariants {variants : List EntityVersion}
    {variant : EntityRef × String × Json.Value} (h : variant ∈ variants.filterMap activeVariant) :
    .active variant.1 variant.2.1 variant.2.2 ∈ variants := by
  obtain ⟨entity, hentity, hvariant⟩ := List.mem_filterMap.mp h
  cases entity with
  | active entityRef version value =>
    cases hvariant
    exact hentity
  | deleted entityRef version => cases hvariant

theorem selectVariant_eq_ok {version : Option String} {variants : List EntityVersion}
    {entityRef : EntityRef} {found : String} {value : Json.Value}
    (h : selectVariant version variants = .ok (entityRef, found, value)) :
    .active entityRef found value ∈ variants ∧ ∀ named ∈ version, named = found := by
  unfold selectVariant at h
  cases version with
  | some named =>
    dsimp only at h
    split at h
    · rename_i hselected
      cases hselected
    · cases h
    · rename_i variant hselected
      obtain hfind := Except.ok.inj hselected
      cases h
      refine ⟨mem_activeVariants (List.mem_of_find?_eq_some hfind), fun other hother => ?_⟩
      obtain rfl := Option.some.inj hother
      have hname := List.find?_some hfind
      exact (of_decide_eq_true hname).symm
  | none =>
    dsimp only at h
    split at h
    · cases h
    · cases h
    · rename_i variant hselected
      split at hselected
      · obtain hhead := Except.ok.inj hselected
        cases h
        exact ⟨mem_activeVariants (List.mem_of_mem_head? hhead), fun _ h => (nomatch h)⟩
      · cases hselected

/-- **A chunk is a slice of what a version contains.** -/
structure Serves (C : ByteCodec) (S : ArtifactSerde) (a : Archive)
    (data : ArtifactDownloadChunkData) (version : String) (value : Json.Value)
    (bytes slice : List UInt8) (result : ArtifactDownloadChunk) : Prop where
  version_eq : result.entity.version = version
  pinned : ∀ named ∈ data.version, named = version
  describes : Describes C S value bytes
  object : a.store.objects.lookup (C.sha256 bytes) = some bytes
  offset : result.offset = data.offset
  inside : data.offset ≤ bytes.length
  slice_eq : slice = (bytes.drop data.offset).take slice.length
  encoded : result.bytesBase64 = C.encode slice
  next : result.nextOffset = data.offset + slice.length
  eof : result.eof = true ↔ result.nextOffset = bytes.length

theorem serveChunk_serves (inv : a.Inv C contents) {read : ReadEntityResult}
    {result : ArtifactDownloadChunk}
    (h : serveChunk C S deadline readings data a.store read = .ok result) :
    ∃ entityRef version value bytes slice, .active entityRef version value ∈ read.variants ∧
      Serves C S a data version value bytes slice result := by
  obtain ⟨_, -, h⟩ := Except.bind_eq_ok.mp h
  obtain ⟨⟨entityRef, version, value⟩, hselected, h⟩ := Except.bind_eq_ok.mp h
  obtain ⟨artifact, hartifact, h⟩ := Except.bind_eq_ok.mp h
  obtain ⟨⟨provider, key⟩, hplacement, h⟩ := Except.bind_eq_ok.mp h
  obtain ⟨chunk, hchunk, h⟩ := Except.bind_eq_ok.mp h
  obtain ⟨_, hdescriptor, h⟩ := Except.bind_eq_ok.mp h
  obtain ⟨_, -, h⟩ := Except.bind_eq_ok.mp h
  cases h
  rw [Except.mapError_eq_ok] at hselected hartifact hchunk
  obtain ⟨hvariant, hpinned⟩ := selectVariant_eq_ok hselected
  obtain ⟨digest, bytes, rfl, hobject, hinside, -, hlength, slice, hencoded, hslice, hnext, heof⟩ :=
    read_eq_ok hchunk
  obtain ⟨rfl, -⟩ := inv.objects _ _ hobject
  refine ⟨entityRef, version, value, bytes, slice, hvariant, rfl, hpinned, ?_, hobject, rfl,
    hinside, hslice, hencoded, hnext, heof⟩
  unfold checkDescriptor at hdescriptor
  split at hdescriptor
  · cases hdescriptor
  · rename_i hmatches
    rw [not_or, not_not, not_not, hlength, keyDigest_key] at hmatches
    refine ⟨artifact, provider, hartifact, hmatches.1, hmatches.2, ?_⟩
    unfold managedPlacement at hplacement
    split at hplacement
    · cases hplacement
    · rename_i hmanaged
      split at hplacement
      · cases hplacement
      · cases hplacement
        exact hmanaged

theorem downloadArtifactChunk_serves {env : Environment} {w : World}
    (hlaw : env.automerge.Lawful) (hreach : Reachable env w)
    (hkeyed : selection.KeyInScope env.scopeOfKey) (inv : a.Inv C contents) {clock : Clock}
    {db : Db} {result : ArtifactDownloadChunk}
    (h : downloadArtifactChunk C S selection deadline readings data w.db clock a.store =
      (.ok result, db)) :
    Runs env w { w with db } ∧ db.InUse selection.readsIn ∧ ∃ version value bytes slice,
      db.Shows selection.readsIn (entityKey selection (artifactRef data.id)) version value ∧
      Serves C S a data version value bytes slice result := by
  unfold downloadArtifactChunk readArtifact at h
  cases hdeadline : checkDeadline deadline readings.arrived with
  | error error =>
    rw [hdeadline] at h
    cases congrArg Prod.fst h
  | ok _ =>
    simp only [hdeadline, Prod.mk.injEq] at h
    obtain ⟨houtcome, rfl⟩ := h
    obtain ⟨read, hread, hserve⟩ := Except.bind_eq_ok.mp houtcome
    rw [Except.mapError_eq_ok] at hread
    obtain ⟨huse, hshows⟩ := engineRead_shows hlaw hreach hkeyed hread
    obtain ⟨entityRef, version, value, bytes, slice, hvariant, hserves⟩ :=
      serveChunk_serves inv hserve
    exact ⟨engineRead_runs env w hkeyed, huse, version, value, bytes, slice,
      hshows _ _ _ hvariant, hserves⟩

end Chunk

/-! ### Downloads -/

section Downloads

variable {env : Environment} {C : ByteCodec} {contents : Set (List UInt8)} {S : ArtifactSerde}
  {request : DownloadRequest} {w : World} {a : Archive} {download : ArtifactDownload}

/-- The entity of a download. -/
def DownloadRequest.key (request : DownloadRequest) : EntityKey :=
  entityKey request.selection (artifactRef request.id)

/-- A version was shown, and what it contains. -/
structure Showed (env : Environment) (C : ByteCodec) (S : ArtifactSerde)
    (request : DownloadRequest) (w : World) (a : Archive) (version : String)
    (bytes : List UInt8) : Prop where
  shown : ∃ w₀ value, Reachable env w₀ ∧ Runs env w₀ w ∧
    w₀.db.Shows request.selection.readsIn request.key version value ∧ Describes C S value bytes
  object : a.store.objects.lookup (C.sha256 bytes) = some bytes

/-- What a download has so far is the beginning of what its version contains. -/
def Downloading.Holds (env : Environment) (C : ByteCodec) (S : ArtifactSerde)
    (request : DownloadRequest) (w : World) (a : Archive) (download : ArtifactDownload) : Prop :=
  download = ⟨request.version, 0, []⟩ ∨ ∃ version bytes,
    Showed env C S request w a version bytes ∧ download.selectedVersion = some version ∧
      (∀ named ∈ request.version, named = version) ∧ download.offset ≤ bytes.length ∧
      download.chunks.flatten = bytes.take download.offset

/-- The next chunk continues the version. -/
theorem Downloading.Holds.next (hlaw : env.automerge.Lawful)
    (hkeyed : request.selection.KeyInScope env.scopeOfKey) (hreach : Reachable env w)
    (inv : a.Inv C contents) (h : Downloading.Holds env C S request w a download) {clock : Clock}
    {readings : DownloadReadings} {db : Db} {result : ArtifactDownloadChunk}
    (hresult : downloadArtifactChunk C S request.selection request.deadline readings
      (request.chunk download) w.db clock a.store = (.ok result, db)) :
    ∃ version value bytes slice,
      db.Shows request.selection.readsIn request.key version value ∧
      Serves C S a (request.chunk download) version value bytes slice result ∧
      (∀ named ∈ request.version, named = version) ∧
      download.chunks.flatten ++ slice = bytes.take (download.offset + slice.length) := by
  obtain ⟨hruns, huse, version, value, bytes, slice, hshows, hserves⟩ :=
    downloadArtifactChunk_serves hlaw hreach hkeyed inv hresult
  refine ⟨version, value, bytes, slice, hshows, hserves, ?_⟩
  have hslice := hserves.slice_eq
  rcases h with rfl | ⟨pinned, content, hshowed, hselected, hnamed, hinside, hchunks⟩
  · exact ⟨hserves.pinned, by simpa [DownloadRequest.chunk] using hslice⟩
  · obtain rfl : pinned = version := hserves.pinned pinned hselected
    obtain ⟨w₀, value₀, hreach₀, hruns₀, hshown, hdescribes⟩ := hshowed.shown
    have hruns' : Runs env w₀ { w with db } := hruns₀.trans hruns
    have inv' := ((hruns'.reachable hreach₀).sound hlaw).inv
    obtain rfl : value₀ = value :=
      hshown.value_eq inv' (hruns'.extends hlaw hreach₀) hshows huse
    have hobject := hshowed.object
    rw [hdescribes.digest_eq hserves.describes, hserves.object] at hobject
    obtain rfl : bytes = content := Option.some.inj hobject
    refine ⟨hnamed, ?_⟩
    rw [hchunks, List.take_add, ← show slice = (bytes.drop download.offset).take slice.length
      from hslice]

/-- What the client makes of a chunk. -/
theorem receive_eq_ok (hlawful : C.Lawful contents) {data : ArtifactDownloadChunkData}
    {version : String} {value : Json.Value} {bytes slice : List UInt8} {result : ArtifactDownloadChunk}
    (hserves : Serves C S a data version value bytes slice result) {progress : DownloadProgress}
    (h : download.receive C result = .ok progress) :
    (result.nextOffset = bytes.length ∧
      progress = .finished (download.chunks.flatten ++ slice)) ∨
    progress = .more ⟨some version, data.offset + slice.length, download.chunks ++ [slice]⟩ := by
  unfold ArtifactDownload.receive at h
  rw [hserves.encoded, hlawful.decode_encode, Option.getD_some] at h
  dsimp only at h
  split at h
  · cases h
  · split at h
    · cases h
    · rename_i hversion
      rw [not_not] at hversion
      split at h
      · rename_i heof
        cases h
        exact Or.inl ⟨hserves.eof.mp heof, by rw [List.flatten_append, List.flatten_singleton]⟩
      · split at h
        · cases h
        · cases h
          exact Or.inr (by rw [← hversion, hserves.version_eq, hserves.next])

theorem Downloading.reached (hkeyed : request.selection.KeyInScope env.scopeOfKey)
    (hlaw : env.automerge.Lawful) (hlawful : C.Lawful contents)
    (h : Downloading env C contents S request w a download) :
    Reachable env w ∧ ArchiveReached C contents a ∧
      Downloading.Holds env C S request w a download := by
  induction h with
  | begin hw ha => exact ⟨hw, ha, Or.inl rfl⟩
  | events _ hw ha ih =>
    obtain ⟨hreach, ⟨provider, hreached⟩, hholds⟩ := ih
    refine ⟨hw.reachable hreach, ⟨provider, hreached.trans ha⟩, ?_⟩
    rcases hholds with hbegin | ⟨version, bytes, ⟨⟨w₀, value, hreach₀, hruns₀, hshown⟩, hobject⟩,
      hrest⟩
    · exact Or.inl hbegin
    · refine Or.inr ⟨version, bytes, ⟨⟨w₀, value, hreach₀, hruns₀.trans hw, hshown⟩, ?_⟩, hrest⟩
      exact (ha.keeps hlawful (ArchiveReached.inv hlawful ⟨provider, hreached⟩)).2.objects _ _ hobject
  | @chunk w a a' download next _ ha clock readings db result hresult hreceive ih =>
    obtain ⟨hreach, ⟨provider, hreached⟩, hholds⟩ := ih
    have hreached' : ArchiveReached C contents a' := ⟨provider, hreached.trans ha⟩
    have inv' := hreached'.inv hlawful
    have hkeeps := (ha.keeps hlawful (ArchiveReached.inv hlawful ⟨provider, hreached⟩)).2
    have hholds' : Downloading.Holds env C S request w a' download := by
      rcases hholds with hbegin | ⟨version, bytes, hshowed, hrest⟩
      · exact Or.inl hbegin
      · exact Or.inr ⟨version, bytes, ⟨hshowed.shown, hkeeps.objects _ _ hshowed.object⟩, hrest⟩
    have hruns := (downloadArtifactChunk_serves hlaw hreach hkeyed inv' hresult).1
    have hreach' : Reachable env { w with db } := hruns.reachable hreach
    obtain ⟨version, value, bytes, slice, hshows, hserves, hnamed, hchunks⟩ :=
      hholds'.next hlaw hkeyed hreach inv' hresult
    refine ⟨hreach', hreached', Or.inr ⟨version, bytes, ⟨⟨_, value, hreach', .refl, hshows,
      hserves.describes⟩, hserves.object⟩, ?_⟩⟩
    rcases receive_eq_ok hlawful hserves hreceive with ⟨-, hfinished⟩ | hmore
    · cases hfinished
    · cases hmore
      refine ⟨rfl, hnamed, ?_, ?_⟩
      · have hinside := hserves.inside
        have hlength := congrArg List.length hserves.slice_eq
        rw [List.length_take, List.length_drop] at hlength
        dsimp only
        omega
      · rw [List.flatten_append, List.flatten_singleton]
        exact hchunks

/-- **The bytes of a download are those of one version**, the one that was asked for, if any. -/
theorem Downloaded.content (hkeyed : request.selection.KeyInScope env.scopeOfKey)
    (hlaw : env.automerge.Lawful) (hlawful : C.Lawful contents) {bytes : List UInt8}
    (h : Downloaded env C contents S request w a bytes) : ∃ version value,
      w.db.Shows request.selection.readsIn request.key version value ∧
      (∀ named ∈ request.version, named = version) ∧ Describes C S value bytes ∧
      a.store.objects.lookup (C.sha256 bytes) = some bytes ∧ bytes ∈ contents := by
  obtain @⟨_, _, _, download, _, h, ha, clock, readings, _, result, hresult, hreceive⟩ := h
  obtain ⟨hreach, hreached, hholds⟩ := (h.events .refl ha).reached hkeyed hlaw hlawful
  obtain ⟨version, value, content, slice, hshows, hserves, hnamed, hchunks⟩ :=
    hholds.next hlaw hkeyed hreach (hreached.inv hlawful) hresult
  rcases receive_eq_ok hlawful hserves hreceive with ⟨hend, hfinished⟩ | hmore
  · cases hfinished
    rw [hserves.next] at hend
    dsimp only [DownloadRequest.chunk] at hend
    rw [hend, List.take_length] at hchunks
    rw [hchunks]
    exact ⟨version, value, hshows, hnamed, hserves.describes, hserves.object,
      ((hreached.inv hlawful).objects _ _ hserves.object).2⟩
  · cases hmore

end Downloads

/-! ### Uploads and downloads -/

section Transfers

variable {C : ByteCodec} {contents : Set (List UInt8)} {S : ArtifactSerde} {a : Archive}

/-- A commit answers for the bytes that were accepted, and puts them where they stay. -/
theorem commit_stores (hlawful : C.Lawful contents) (hreached : ArchiveReached C contents a)
    {uploadId : String} (hwithin : a.uploaded uploadId ∈ contents) {data : ArtifactUploadBeginData}
    {stored : StoredArtifact} (h : (a.store.commit C uploadId).1 = .ok (data, stored)) :
    stored = storedArtifact C a.store.provider (a.uploaded uploadId) ∧
      ∀ later, ArchiveRuns C contents (a.step C (.commit uploadId)) later →
        later.store.provider = a.store.provider ∧
        later.store.objects.lookup (C.sha256 (a.uploaded uploadId)) = some (a.uploaded uploadId) := by
  have inv := hreached.inv hlawful
  rcases commit_spec hlawful inv hwithin with ⟨error, hcommit⟩ | ⟨upload, store, -, hcommit, -,
    hkeeps, hobject⟩
  · rw [hcommit] at h
    cases h
  · rw [hcommit] at h
    cases h
    refine ⟨rfl, fun later hlater => ?_⟩
    have hinv :=
      (Archive.Inv.step hlawful inv (show a.Within contents (.commit uploadId) from hwithin)).1
    have hlater := (hlater.keeps hlawful hinv).2
    dsimp only [Archive.step] at hlater
    rw [hcommit] at hlater
    exact ⟨hlater.provider.trans hkeeps.provider, hlater.objects _ _ hobject⟩

/-- A creation stores the value it was asked to store. -/
theorem prepare_create_value {A : Automerge} {toText : Json.Value → String}
    {config : BackendConfig} {p : Preparation} {entityType : String} {id : Option String}
    {value : Json.Value} (hmutation : p.request.mutation = .create entityType id value)
    {snapshot : Option EntitySnapshot} {prepared : Prepared}
    (h : prepare A toText config p snapshot = .ok prepared) :
    prepared.commit.newVersions.map (·.valueJson) = [some value] ∧
      ∃ version, prepared.result.entity = .active p.entityRef version value := by
  unfold prepare at h
  rw [hmutation] at h
  dsimp only [prepareCreate] at h
  cases snapshot with
  | some snapshot => cases h
  | none =>
    obtain ⟨record, -, h⟩ := Except.bind_eq_ok.mp h
    cases h
    exact ⟨rfl, _, rfl⟩

/-- What a committed upload reads back as, whatever is committed later. -/
structure ReadsBack (C : ByteCodec) (contents : Set (List UInt8)) (S : ArtifactSerde) (a : Archive)
    (uploadId : String) (data : ArtifactUploadBeginData) (stored : StoredArtifact) : Prop where
  byteLength : stored.byteLength = (a.uploaded uploadId).length
  digest : stored.digest = "sha256:" ++ C.sha256 (a.uploaded uploadId)
  describes : Describes C S (S.toValue (uploadedValue data stored)) (a.uploaded uploadId)
  created : ∀ A toText config (p : Preparation) snapshot prepared,
    p.request.mutation = uploadedMutation S data stored →
    prepare A toText config p snapshot = .ok prepared →
      prepared.commit.newVersions.map (·.valueJson) =
        [some (S.toValue (uploadedValue data stored))]
  chunk : ∀ later, ArchiveRuns C contents (a.step C (.commit uploadId)) later → ∀ offset maxBytes,
    offset ≤ (a.uploaded uploadId).length → 0 < maxBytes → maxBytes ≤ maxArtifactChunkBytes →
    ∃ chunk, later.store.read C stored.provider stored.key offset maxBytes = .ok chunk ∧
      C.decode chunk.bytesBase64 = some (((a.uploaded uploadId).drop offset).take maxBytes) ∧
      chunk.byteLength = (a.uploaded uploadId).length ∧
      (chunk.eof = true ↔ chunk.nextOffset = (a.uploaded uploadId).length)
  chunks : ∀ archives : ℕ → Archive,
    (∀ offset, ArchiveRuns C contents (a.step C (.commit uploadId)) (archives offset)) →
    ∀ maxBytes, 0 < maxBytes → maxBytes ≤ maxArtifactChunkBytes →
    ∃ chunks, readChunks C (fun offset => (archives offset).store) stored.provider stored.key
      maxBytes ((a.uploaded uploadId).length + 1) 0 = some chunks ∧
      chunks.flatten = a.uploaded uploadId

theorem commit_readsBack (hlawful : C.Lawful contents) (hserde : S.RoundTrips)
    (hreached : ArchiveReached C contents a) {uploadId : String}
    (hwithin : a.uploaded uploadId ∈ contents) {data : ArtifactUploadBeginData}
    {stored : StoredArtifact} (h : (a.store.commit C uploadId).1 = .ok (data, stored)) :
    ReadsBack C contents S a uploadId data stored := by
  obtain ⟨rfl, hstays⟩ := commit_stores hlawful hreached hwithin h
  refine ⟨rfl, rfl, ?_, ?_, ?_, ?_⟩
  · exact describes_uploaded hserde _ _ ((hreached.inv hlawful).lengths uploadId)
  · intro A toText config p snapshot prepared hmutation hprepare
    exact (prepare_create_value hmutation hprepare).1
  · intro later hlater offset maxBytes hoffset hmax hlimit
    obtain ⟨hprovider, hobject⟩ := hstays later hlater
    have hread := read_stored hlawful hobject hoffset hmax hlimit
    rw [hprovider] at hread
    exact ⟨_, hread, hlawful.decode_encode _, rfl, decide_eq_true_iff⟩
  · intro archives harchives maxBytes hmax hlimit
    exact readChunks_eq hlawful (fun offset => (hstays _ (harchives offset)).1)
      (fun offset => (hstays _ (harchives offset)).2) hmax hlimit (Nat.zero_le _) (by omega)

/-- **A download undoes an upload, and never mixes versions.** An object has the digest it is named
by; a chunk is accepted where the accepted ones end, or nothing changes; a committed upload reads
back as what was accepted; and a download that completes, whatever happened in its course, has all
of what one version contains. -/
theorem artifact_download_undoes_upload {env : Environment} (hlaw : env.automerge.Lawful)
    (hlawful : C.Lawful contents) (hserde : S.RoundTrips) :
    (∀ a, ArchiveReached C contents a →
      (∀ digest bytes, a.store.objects.lookup digest = some bytes → C.sha256 bytes = digest) ∧
      (∀ uploadId offset chunk,
        ((∃ error, a.store.append C uploadId offset chunk = (.error error, a.store)) ∧
          a.step C (.append uploadId offset chunk) = a) ∨
        offset = (a.uploaded uploadId).length ∧ ∃ bytes, C.decode chunk = some bytes ∧
          (a.step C (.append uploadId offset chunk)).uploaded uploadId =
            a.uploaded uploadId ++ bytes) ∧
      ∀ uploadId data stored, a.uploaded uploadId ∈ contents →
        (a.store.commit C uploadId).1 = .ok (data, stored) →
          ReadsBack C contents S a uploadId data stored) ∧
    ∀ request w a bytes, request.selection.KeyInScope env.scopeOfKey →
      Downloaded env C contents S request w a bytes → ∃ version value,
        w.db.Shows request.selection.readsIn request.key version value ∧
        (∀ named ∈ request.version, named = version) ∧ Describes C S value bytes ∧
        ∀ data provider content, content ∈ contents → content.length < 2 ^ 64 →
          value = S.toValue (uploadedValue data (storedArtifact C provider content)) →
            bytes = content := by
  refine ⟨fun a hreached => ⟨fun digest bytes hobject => ?_, fun uploadId offset chunk => ?_,
    fun uploadId data stored hwithin hcommit => ?_⟩, fun request w a bytes hkeyed hdownloaded => ?_⟩
  · exact ((hreached.inv hlawful).objects _ _ hobject).1
  · rcases append_spec (hreached.inv hlawful) uploadId offset chunk with
      ⟨error, hrefused, hsame⟩ | ⟨bytes, upload, hdecoded, -, -, hoffset, -, -, -, hstep⟩
    · exact Or.inl ⟨⟨error, hrefused⟩, hsame⟩
    · refine Or.inr ⟨hoffset, bytes, hdecoded, ?_⟩
      rw [hstep]
      simp [Archive.uploaded]
  · exact commit_readsBack hlawful hserde hreached hwithin hcommit
  · obtain ⟨version, value, hshows, hnamed, hdescribes, hobject, hbytes⟩ :=
      hdownloaded.content hkeyed hlaw hlawful
    refine ⟨version, value, hshows, hnamed, hdescribes, ?_⟩
    rintro data provider content hcontent hlength rfl
    exact hlawful.injective hbytes hcontent
      (hdescribes.digest_eq (describes_uploaded hserde data provider hlength))

end Transfers

/-! ### Three letters -/

def letters : List UInt8 := [97, 98, 99]

/-- SHA-256 and Base64, as they are on "abc". -/
def lettersCodec : ByteCodec where
  sha256 := fun bytes =>
    if bytes = letters then "ba7816bf8f01cfea414140de5dae2223b00361a396177a9cb410ff61f20015ad"
    else "e3b0c44298fc1c149afbf4c8996fb92427ae41e4649b934ca495991b7852b855"
  encode := fun bytes =>
    if bytes = [97, 98] then "YWI=" else if bytes = [99] then "Yw=="
    else String.ofList ('*' :: bytes.map fun byte => Char.ofNat byte.toNat)
  decode := fun text =>
    if text = "YWI=" then some [97, 98] else if text = "Yw==" then some [99]
    else some (text.toList.tail.map fun letter => UInt8.ofNat letter.toNat)

theorem lettersCodec_lawful : lettersCodec.Lawful {letters} := by
  refine ⟨?_, fun bytes => ?_, fun bytes => ?_⟩
  · rintro _ rfl _ rfl _
    rfl
  · dsimp only [lettersCodec]
    split <;> decide +kernel
  · dsimp only [lettersCodec]
    split
    · rename_i h
      rw [h, if_pos rfl]
    · split
      · rename_i h
        rw [h, if_neg (by decide), if_pos rfl]
      · have hne : ∀ (text : List Char) (rest : List Char), text.head? ≠ some '*' →
            String.ofList ('*' :: rest) ≠ String.ofList text := by
          intro text rest htext h
          rw [String.ofList_inj] at h
          exact htext (by rw [← h]; rfl)
        rw [if_neg (hne ['Y', 'W', 'I', '='] _ (by decide)),
          if_neg (hne ['Y', 'w', '=', '='] _ (by decide)), String.toList_ofList, List.tail_cons,
          List.map_map]
        congr 1
        conv_rhs => rw [← List.map_id bytes]
        refine List.map_congr_left fun byte _ => ?_
        have hvalid : byte.toNat.isValidChar := Or.inl (by have := byte.toNat_lt; omega)
        rw [Function.comp_apply, Char.ofNat, dif_pos hvalid]
        exact UInt8.ofNat_toNat

def optionalText : Option String → Json.Value
  | none => .null
  | some text => .string text

def optionalText? : Json.Value → Except String (Option String)
  | .null => .ok none
  | .string text => .ok (some text)
  | _ => .error "invalid type"

def optionalLength : Option ℕ → Json.Value
  | none => .null
  | some length => .number (.posInt (UInt64.ofNat length))

def optionalLength? : Json.Value → Except String (Option ℕ)
  | .null => .ok none
  | .number (.posInt length) => .ok (some length.toNat)
  | _ => .error "invalid type"

def placementValue : ArtifactPlacement → Json.Value
  | .managed provider key =>
    .object [("key", .string key), ("kind", .string "managed"), ("provider", .string provider)]
  | .indexed provider locator revision =>
    .object [("kind", .string "indexed"), ("locator", .string locator),
      ("provider", .string provider), ("revision", optionalText revision)]

def placementValue? : Json.Value → Except String ArtifactPlacement
  | .object [(_, .string key), (_, .string _), (_, .string provider)] => .ok (.managed provider key)
  | .object [(_, .string _), (_, .string locator), (_, .string provider), (_, revision)] => do
    let revision ← optionalText? revision
    return .indexed provider locator revision
  | _ => .error "invalid type"

/-- Artifact values in JSON, as far as their keys are in order. -/
def plainSerde : ArtifactSerde where
  toValue := fun value => .object [("byte_length", optionalLength value.byteLength),
    ("digest", optionalText value.digest), ("media_type", .string value.mediaType),
    ("metadata", value.metadata), ("name", optionalText value.name),
    ("placement", placementValue value.placement)]
  fromValue := fun value =>
    match value with
    | .object [(_, byteLength), (_, digest), (_, .string mediaType), (_, metadata), (_, name),
        (_, placement)] => do
      let byteLength ← optionalLength? byteLength
      let digest ← optionalText? digest
      let name ← optionalText? name
      let placement ← placementValue? placement
      return { mediaType, name, byteLength, digest, placement, metadata }
    | _ => .error "invalid type"

theorem optionalText?_optionalText (text : Option String) :
    optionalText? (optionalText text) = .ok text := by
  cases text <;> rfl

theorem placementValue?_placementValue (placement : ArtifactPlacement) :
    placementValue? (placementValue placement) = .ok placement := by
  cases placement with
  | managed provider key => rfl
  | indexed provider locator revision =>
    simp only [placementValue, placementValue?, optionalText?_optionalText]
    rfl

theorem plainSerde_roundTrips : plainSerde.RoundTrips := by
  intro value hlength
  have hread : optionalLength? (optionalLength value.byteLength) = .ok value.byteLength := by
    cases hvalue : value.byteLength with
    | none => rfl
    | some length =>
      have hlt : length < 2 ^ 64 := hlength length hvalue
      simp only [optionalLength, optionalLength?, UInt64.toNat_ofNat', Nat.mod_eq_of_lt hlt]
  simp only [plainSerde, hread, optionalText?_optionalText, placementValue?_placementValue]
  rfl

def lettersData : ArtifactUploadBeginData := ⟨some "a", "text/plain", none, some 3, none, .null⟩

def lettersStored : StoredArtifact := storedArtifact lettersCodec "node" letters

/-- "abc", begun, refused at a wrong offset, and accepted in two chunks. -/
def lettersUploaded : Archive :=
  ((((⟨⟨"node", [], [], []⟩, fun _ => []⟩ : Archive).step lettersCodec
    (.begin "upload" lettersData)).step lettersCodec (.append "upload" 1 "Yw==")).step lettersCodec
    (.append "upload" 0 "YWI=")).step lettersCodec (.append "upload" 2 "Yw==")

theorem lettersUploaded_reached : ArchiveReached lettersCodec {letters} lettersUploaded :=
  ⟨"node", .tail (.tail (.tail (.single ⟨.begin "upload" lettersData, trivial, rfl⟩)
    ⟨.append "upload" 1 "Yw==", trivial, rfl⟩) ⟨.append "upload" 0 "YWI=", trivial, rfl⟩)
    ⟨.append "upload" 2 "Yw==", trivial, rfl⟩⟩

theorem lettersUploaded_uploaded : lettersUploaded.uploaded "upload" = letters := by decide +kernel

/-- Artifacts of any value. -/
def artifactEnvironment : Environment :=
  { noteEnvironment with
    config := { anyValue with entityTypes := [("artifact", ⟨fun _ => .ok ()⟩)] } }

def lettersCommitted : Archive := lettersUploaded.step lettersCodec (.commit "upload")

def lettersCreated : World :=
  World.after artifactEnvironment
    [.arrive (noteRequest (uploadedMutation plainSerde lettersData lettersStored) none false [])
      (readingsAt 5), .advance 0 (clockAt 5), .advance 0 (clockAt 5)]

def lettersRequest : DownloadRequest := ⟨noteSelection none false [], none, "a", none, 2⟩

def lettersReadings : DownloadReadings := ⟨5, ⟨5, 5, 5, 5⟩, 5, 5⟩

/-- A chunk of the letters. -/
def lettersChunk (offset nextOffset : ℕ) (bytesBase64 : String) : ArtifactDownloadChunk where
  metaFields := []
  entity := .active ⟨"artifact", "a"⟩ (drawnName 0 (.version 0))
    (plainSerde.toValue (uploadedValue lettersData lettersStored))
  offset
  nextOffset
  eof := nextOffset = 3
  bytesBase64

def lettersReply (download : ArtifactDownload) (db : Db) :
    Except ArtifactDownloadError ArtifactDownloadChunk × Db :=
  downloadArtifactChunk lettersCodec plainSerde lettersRequest.selection lettersRequest.deadline
    lettersReadings (lettersRequest.chunk download) db (clockAt 5) lettersCommitted.store

def lettersBegun : ArtifactDownload := ⟨some (drawnName 0 (.version 0)), 2, [[97, 98]]⟩

theorem lettersDownloaded : ∃ w, Downloaded artifactEnvironment lettersCodec {letters} plainSerde
    lettersRequest w lettersCommitted letters := by
  have hcommitted : ArchiveReached lettersCodec {letters} lettersCommitted := by
    obtain ⟨provider, hruns⟩ := lettersUploaded_reached
    exact ⟨provider, hruns.tail ⟨.commit "upload", lettersUploaded_uploaded, rfl⟩⟩
  have hfirst : (lettersReply ⟨none, 0, []⟩ lettersCreated.db).1 =
      .ok (lettersChunk 0 2 "YWI=") := by decide +kernel
  have hsecond : (lettersReply lettersBegun (lettersReply ⟨none, 0, []⟩ lettersCreated.db).2).1 =
      .ok (lettersChunk 2 3 "Yw==") := by decide +kernel
  have hbegin : Downloading artifactEnvironment lettersCodec {letters} plainSerde lettersRequest
      lettersCreated lettersCommitted ⟨none, 0, []⟩ :=
    .begin (World.after_reachable _ _) hcommitted
  refine ⟨_, .finished (hbegin.chunk .refl (clockAt 5) lettersReadings (Prod.ext hfirst rfl) rfl)
    .refl (clockAt 5) lettersReadings (Prod.ext hsecond rfl) rfl⟩

/-- "abc" is read back, and a download of its artifact completes with it. -/
theorem letters_come_back :
    (∃ chunks, readChunks lettersCodec (fun _ => lettersCommitted.store) "node"
      ("sha256/ba7816bf8f01cfea414140de5dae2223b00361a396177a9cb410ff61f20015ad") 2 4 0 =
        some chunks ∧ chunks.flatten = letters) ∧
    ∃ (w : World) (version : String) (value : Json.Value),
      w.db.Shows none lettersRequest.key version value ∧
      Describes lettersCodec plainSerde value letters := by
  have hlaw : artifactEnvironment.automerge.Lawful := noAutomerge_lawful
  obtain ⟨harchive, hdownload⟩ :=
    artifact_download_undoes_upload hlaw lettersCodec_lawful plainSerde_roundTrips
  constructor
  · have hback := (harchive lettersUploaded lettersUploaded_reached).2.2 "upload" lettersData
      lettersStored lettersUploaded_uploaded (by rfl)
    exact hback.chunks (fun _ => lettersCommitted) (fun _ => .refl) 2 (by decide) (by decide)
  · obtain ⟨w, hdownloaded⟩ := lettersDownloaded
    obtain ⟨version, value, hshows, -, hdescribes, -⟩ :=
      hdownload lettersRequest w lettersCommitted letters (by decide) hdownloaded
    exact ⟨w, version, value, hshows, hdescribes⟩

end Patchouli
