import Mathlib.Data.List.Basic
import Mathlib.Data.Set.Function
import Mathlib.Logic.Function.Basic
import Mathlib.Tactic.Common
import Patchouli.Lib.Table
import Patchouli.Lib.Fallible
import Patchouli.Lib.Json

/-!
# The artifact store

`artifact_store.rs`. Bytes arrive in chunks in a part file; a commit hashes the file and moves it
under its digest, and a download reads slices of it. The store is content-addressed: an object is
never written again, so whoever holds its digest reads the same bytes at any time.

The file system is two maps, of the objects by digest and of the part files by upload, and its
operations succeed. SHA-256 and Base64 are parameters. As there are more contents than digests, it is
the contents that are ever committed that SHA-256 is injective on. The metadata of an artifact is a
JSON value nobody looks into.

`Archive` adds to the store what a client knows: the chunks that were accepted, upload by upload.

## Main definitions

* `ArtifactStore` with `begin`, `append`, `commit`, `finish`, `read`, `reopen`
* `Archive`, `Archive.step`

## Main results

* `ArchiveReached.inv` — an object has the digest it is named by
* `commit_spec` — a commit is of the accepted bytes
* `readChunks_eq` — what is read back in chunks is the object
-/

namespace Patchouli

/-- SHA-256 in hexadecimal, and Base64. -/
structure ByteCodec where
  sha256 : List UInt8 → String
  encode : List UInt8 → String
  decode : String → Option (List UInt8)

/-- Sixty-four lowercase hexadecimal digits. -/
def IsHexDigest (digest : String) : Prop :=
  digest.length = 64 ∧
    digest.toList.all (fun c => c.isDigit || 'a'.toNat ≤ c.toNat && c.toNat ≤ 'f'.toNat) = true

instance : DecidablePred IsHexDigest := fun digest =>
  inferInstanceAs (Decidable (digest.length = 64 ∧
    digest.toList.all (fun c => c.isDigit || 'a'.toNat ≤ c.toNat && c.toNat ≤ 'f'.toNat) = true))

/-- No two of some contents have one digest, and Base64 can be undone. -/
structure ByteCodec.Lawful (C : ByteCodec) (contents : Set (List UInt8)) : Prop where
  injective : Set.InjOn C.sha256 contents
  hex : ∀ bytes, IsHexDigest (C.sha256 bytes)
  decode_encode : ∀ bytes, C.decode (C.encode bytes) = some bytes

/-! ### The store -/

/-- `MAX_ARTIFACT_CHUNK_BYTES`. -/
def maxArtifactChunkBytes : ℕ := 512 * 1024

/-- `ArtifactUploadBeginData`. -/
structure ArtifactUploadBeginData where
  id : Option String
  mediaType : String
  name : Option String
  expectedByteLength : Option ℕ
  expectedDigest : Option String
  metadata : Json.Value

/-- `StoredArtifact`. -/
structure StoredArtifact where
  provider : String
  key : String
  byteLength : ℕ
  digest : String
  deriving DecidableEq

/-- `DownloadChunk`. -/
structure DownloadChunk where
  bytesBase64 : String
  byteLength : ℕ
  nextOffset : ℕ
  eof : Bool

/-- `Upload`; its part file has its name. -/
structure Upload where
  data : ArtifactUploadBeginData
  committed : Option StoredArtifact

inductive ArtifactStoreError where
  | invalid (detail : String)
  | notFound
  | io (detail : String)
  deriving DecidableEq

/-- The store: the objects by digest, the part files and the active uploads by upload. -/
structure ArtifactStore where
  provider : String
  objects : List (String × List UInt8)
  parts : List (String × List UInt8)
  activeUploads : List (String × Upload)

/-- `{:?}` of a string in which nothing is escaped. -/
def debugString (text : String) : String := "\"" ++ text ++ "\""

/-- `parse_key`. -/
def parseKey (key : String) : Except ArtifactStoreError String :=
  match key.toList.dropPrefix? "sha256/".toList with
  | none => .error (.invalid "managed artifact key must use sha256/<digest>")
  | some digest =>
    if IsHexDigest (String.ofList digest) then .ok (String.ofList digest)
    else .error (.invalid "managed artifact key has an invalid SHA-256 digest")

/-- What a commit answers for some bytes. -/
def storedArtifact (C : ByteCodec) (provider : String) (bytes : List UInt8) : StoredArtifact where
  provider
  key := "sha256/" ++ C.sha256 bytes
  byteLength := bytes.length
  digest := "sha256:" ++ C.sha256 bytes

namespace ArtifactStore

variable (C : ByteCodec) (store : ArtifactStore)

/-- Remove an entry of a map. -/
def remove {α : Type} (key : String) (entries : List (String × α)) : List (String × α) :=
  entries.filter (·.1 ≠ key)

/-- `ArtifactStore::open`, when the daemon starts again. -/
def reopen : ArtifactStore := { store with parts := [], activeUploads := [] }

/-- `ArtifactStore::begin`; the upload was drawn. -/
def begin (uploadId : String) (data : ArtifactUploadBeginData) :
    Except ArtifactStoreError Unit × ArtifactStore :=
  match store.parts.lookup uploadId with
  | some _ => (.error (.io "file exists"), store)
  | none => (.ok (), { store with
      parts := Table.insertEntry uploadId [] store.parts
      activeUploads := Table.insertEntry uploadId ⟨data, none⟩ store.activeUploads })

/-- The chunk of an `append`. -/
def decodeChunk (bytesBase64 : String) : Except ArtifactStoreError (List UInt8) :=
  match C.decode bytesBase64 with
  | none => .error (.invalid "bytes_base64 is not valid Base64")
  | some bytes =>
    if bytes = [] ∨ maxArtifactChunkBytes < bytes.length then
      .error (.invalid ("decoded chunk must contain 1 through " ++
        toString maxArtifactChunkBytes ++ " bytes"))
    else .ok bytes

/-- The part file an `append` writes to, and its length after. -/
def checkAppend (uploadId : String) (offset : ℕ) (bytes : List UInt8) :
    Except ArtifactStoreError (List UInt8 × ℕ) :=
  match store.activeUploads.lookup uploadId with
  | none => .error .notFound
  | some upload =>
    if upload.committed.isSome then .error (.invalid "artifact upload is already committed")
    else match store.parts.lookup uploadId with
      | none => .error (.io "entity not found")
      | some part =>
        if part.length ≠ offset then
          .error (.invalid ("chunk offset " ++ toString offset ++
            " does not match next offset " ++ toString part.length))
        else if 2 ^ 64 ≤ part.length + bytes.length then
          .error (.invalid "artifact length overflow")
        else if upload.data.expectedByteLength.any (· < part.length + bytes.length) then
          .error (.invalid "uploaded bytes exceed expected_byte_length")
        else .ok (part, part.length + bytes.length)

/-- `ArtifactStore::append`. -/
def append (uploadId : String) (offset : ℕ) (bytesBase64 : String) :
    Except ArtifactStoreError ℕ × ArtifactStore :=
  match decodeChunk C bytesBase64 with
  | .error error => (.error error, store)
  | .ok bytes =>
    match store.checkAppend uploadId offset bytes with
    | .error error => (.error error, store)
    | .ok (part, nextOffset) => (.ok nextOffset,
        { store with parts := Table.insertEntry uploadId (part ++ bytes) store.parts })

/-- What the content of an upload has to meet. -/
def checkExpected (data : ArtifactUploadBeginData) (bytes : List UInt8) :
    Except ArtifactStoreError Unit :=
  if data.expectedByteLength.any (· ≠ bytes.length) then
    .error (.invalid ("uploaded byte length " ++ toString bytes.length ++
      " does not match expected_byte_length"))
  else if data.expectedDigest.any (· ≠ "sha256:" ++ C.sha256 bytes) then
    .error (.invalid "uploaded content does not match expected_digest")
  else .ok ()

/-- The part file becomes an object, unless there is one. -/
def publish (uploadId : String) (bytes : List UInt8) : Except ArtifactStoreError ArtifactStore :=
  match store.objects.lookup (C.sha256 bytes) with
  | some existing =>
    if existing.length ≠ bytes.length ∨ C.sha256 existing ≠ C.sha256 bytes then
      .error (.io "managed artifact content failed integrity verification")
    else .ok { store with parts := remove uploadId store.parts }
  | none => .ok { store with
      objects := Table.insertEntry (C.sha256 bytes) bytes store.objects
      parts := remove uploadId store.parts }

/-- `ArtifactStore::commit`. -/
def commit (uploadId : String) :
    Except ArtifactStoreError (ArtifactUploadBeginData × StoredArtifact) × ArtifactStore :=
  match store.activeUploads.lookup uploadId with
  | none => (.error .notFound, store)
  | some upload =>
    match upload.committed with
    | some committed => (.ok (upload.data, committed), store)
    | none =>
      match store.parts.lookup uploadId with
      | none => (.error (.io "entity not found"), store)
      | some bytes =>
        match checkExpected C upload.data bytes with
        | .error error => (.error error, store)
        | .ok () =>
          match store.publish C uploadId bytes with
          | .error error => (.error error, store)
          | .ok published =>
            let committed := storedArtifact C store.provider bytes
            (.ok (upload.data, committed), { published with
              activeUploads := Table.insertEntry uploadId ⟨upload.data, some committed⟩
                published.activeUploads })

/-- `ArtifactStore::finish`. -/
def finish (uploadId : String) : ArtifactStore :=
  { store with activeUploads := remove uploadId store.activeUploads }

/-- `ArtifactStore::read`. -/
def read (provider key : String) (offset maxBytes : ℕ) :
    Except ArtifactStoreError DownloadChunk := do
  if provider ≠ store.provider then
    .error (.invalid ("artifact is managed by provider " ++ debugString provider ++ ", not " ++
      debugString store.provider))
  else do
    let digest ← parseKey key
    match store.objects.lookup digest with
    | none => .error .notFound
    | some bytes =>
      if bytes.length < offset then
        .error (.invalid "download offset exceeds artifact byte length")
      else if maxBytes = 0 ∨ maxArtifactChunkBytes < maxBytes then
        .error (.invalid ("max_bytes must be between 1 and " ++ toString maxArtifactChunkBytes))
      else
        let readLength := min (bytes.length - offset) maxBytes
        return {
          bytesBase64 := C.encode ((bytes.drop offset).take readLength)
          byteLength := bytes.length
          nextOffset := offset + readLength
          eof := offset + readLength = bytes.length }

end ArtifactStore

/-! ### The archive -/

/-- The store, and the chunks that were accepted. -/
structure Archive where
  store : ArtifactStore
  accepted : String → List (List UInt8)

/-- The requests to a store. It is opened again after the daemon stopped, and that may be between
the two effects of a commit. -/
inductive ArchiveEvent where
  | begin (uploadId : String) (data : ArtifactUploadBeginData)
  | append (uploadId : String) (offset : ℕ) (bytesBase64 : String)
  | commit (uploadId : String)
  | finish (uploadId : String)
  | reopen
  | crashInCommit (uploadId : String)

namespace Archive

variable (C : ByteCodec) (a : Archive)

/-- The bytes of an upload, as far as they were accepted. -/
def uploaded (uploadId : String) : List UInt8 := (a.accepted uploadId).flatten

/-- One request to the store. -/
def step : ArchiveEvent → Archive
  | .begin uploadId data =>
    match a.store.begin uploadId data with
    | (.ok (), store) => ⟨store, Function.update a.accepted uploadId []⟩
    | (.error _, store) => { a with store }
  | .append uploadId offset bytesBase64 =>
    match a.store.append C uploadId offset bytesBase64, C.decode bytesBase64 with
    | (.ok _, store), some bytes =>
      ⟨store, Function.update a.accepted uploadId (a.accepted uploadId ++ [bytes])⟩
    | (_, store), _ => { a with store }
  | .commit uploadId => { a with store := (a.store.commit C uploadId).2 }
  | .finish uploadId => { a with store := a.store.finish uploadId }
  | .reopen => { a with store := a.store.reopen }
  | .crashInCommit uploadId => { a with store := (a.store.commit C uploadId).2.reopen }

/-- What a request commits is among some contents. -/
def Within (contents : Set (List UInt8)) : ArchiveEvent → Prop
  | .commit uploadId | .crashInCommit uploadId => a.uploaded uploadId ∈ contents
  | _ => True

end Archive

/-- From one archive to another, where only some contents are committed. -/
abbrev ArchiveRuns (C : ByteCodec) (contents : Set (List UInt8)) : Archive → Archive → Prop :=
  Relation.ReflTransGen fun a a' => ∃ event, a.Within contents event ∧ a' = a.step C event

/-- The archives reached from an empty store. -/
def ArchiveReached (C : ByteCodec) (contents : Set (List UInt8)) (a : Archive) : Prop :=
  ∃ provider, ArchiveRuns C contents ⟨⟨provider, [], [], []⟩, fun _ => []⟩ a

/-! ### Lookups -/

namespace ArtifactStore

variable {α : Type} {key other : String}

theorem lookup_remove_of_ne (hne : other ≠ key) (entries : List (String × α)) :
    (remove key entries).lookup other = entries.lookup other := by
  unfold remove
  induction entries with
  | nil => rfl
  | cons e rest ih =>
    obtain ⟨k, v⟩ := e
    by_cases hk : k = key
    · subst hk
      rw [List.filter_cons_of_neg (by simp), ih, List.lookup_cons, beq_false_of_ne hne]
    · rw [List.filter_cons_of_pos (by simpa using hk), List.lookup_cons, List.lookup_cons, ih]

theorem lookup_remove_self (key : String) (entries : List (String × α)) :
    (remove key entries).lookup key = none := by
  unfold remove
  induction entries with
  | nil => rfl
  | cons e rest ih =>
    obtain ⟨k, v⟩ := e
    by_cases hk : k = key
    · subst hk
      rw [List.filter_cons_of_neg (by simp), ih]
    · rw [List.filter_cons_of_pos (by simpa using hk), List.lookup_cons,
        beq_false_of_ne (Ne.symm hk), ih]

end ArtifactStore

theorem parseKey_key {digest : String} (h : IsHexDigest digest) :
    parseKey ("sha256/" ++ digest) = .ok digest := by
  unfold parseKey
  rw [String.toList_append, List.dropPrefix?_append_of_beq _ (beq_self_eq_true _)]
  dsimp only
  rw [String.ofList_toList, if_pos h]

theorem parseKey_eq_ok {key digest : String} (h : parseKey key = .ok digest) :
    key = "sha256/" ++ digest := by
  unfold parseKey at h
  split at h
  · cases h
  · rename_i rest hrest
    split at h
    · cases h
      obtain ⟨head, hkey, hhead⟩ := List.dropPrefix?_eq_some_iff.mp hrest
      rw [← String.toList_inj, hkey, eq_of_beq hhead, String.toList_append]
      exact congrArg _ String.toList_ofList.symm
    · cases h

/-! ### Reading an object -/

section Reading

variable {C : ByteCodec} {contents : Set (List UInt8)} {store : ArtifactStore}
  {bytes : List UInt8} {offset maxBytes : ℕ}

/-- **A slice of an object.** -/
theorem read_stored (hlawful : C.Lawful contents)
    (hobject : store.objects.lookup (C.sha256 bytes) = some bytes) (hoffset : offset ≤ bytes.length)
    (hmax : 0 < maxBytes) (hlimit : maxBytes ≤ maxArtifactChunkBytes) :
    store.read C store.provider ("sha256/" ++ C.sha256 bytes) offset maxBytes = .ok {
      bytesBase64 := C.encode ((bytes.drop offset).take maxBytes)
      byteLength := bytes.length
      nextOffset := offset + min (bytes.length - offset) maxBytes
      eof := offset + min (bytes.length - offset) maxBytes = bytes.length } := by
  have htake : (bytes.drop offset).take (min (bytes.length - offset) maxBytes) =
      (bytes.drop offset).take maxBytes := by
    rcases Nat.le_total (bytes.length - offset) maxBytes with hle | hle
    · rw [Nat.min_eq_left hle, List.take_of_length_le (by rw [List.length_drop]),
        List.take_of_length_le (by rw [List.length_drop]; exact hle)]
    · rw [Nat.min_eq_right hle]
  unfold ArtifactStore.read
  rw [if_neg (by simp), parseKey_key (hlawful.hex bytes)]
  dsimp only [bind, Except.bind]
  rw [hobject]
  dsimp only
  rw [if_neg (by omega), if_neg (by omega), htake]
  rfl

/-- What a read tells of the object. -/
theorem read_eq_ok {provider key : String} {chunk : DownloadChunk}
    (h : store.read C provider key offset maxBytes = .ok chunk) : ∃ digest bytes,
      key = "sha256/" ++ digest ∧ store.objects.lookup digest = some bytes ∧
      offset ≤ bytes.length ∧ 0 < maxBytes ∧ chunk.byteLength = bytes.length ∧
      ∃ slice, chunk.bytesBase64 = C.encode slice ∧ slice = (bytes.drop offset).take slice.length ∧
        chunk.nextOffset = offset + slice.length ∧
        (chunk.eof = true ↔ chunk.nextOffset = bytes.length) := by
  unfold ArtifactStore.read at h
  split at h
  · cases h
  · obtain ⟨digest, hdigest, h⟩ := Except.bind_eq_ok.mp h
    split at h
    · cases h
    · rename_i bytes hobject
      split at h
      · cases h
      · split at h
        · cases h
        · rename_i hoffset hmax
          cases h
          have hlength : ((bytes.drop offset).take (min (bytes.length - offset) maxBytes)).length =
              min (bytes.length - offset) maxBytes := by
            rw [List.length_take, List.length_drop]
            omega
          refine ⟨digest, bytes, parseKey_eq_ok hdigest, hobject, by omega, by omega, rfl, _, rfl, ?_,
            ?_, ?_⟩
          · rw [hlength]
          · rw [hlength]
          · simp

end Reading

/-! ### The invariant -/

/-- An active upload: its part file holds what was accepted, or it was committed with that. -/
def Upload.Holds (C : ByteCodec) (a : Archive) (uploadId : String) (upload : Upload) : Prop :=
  match upload.committed with
  | none => a.store.parts.lookup uploadId = some (a.uploaded uploadId)
  | some stored => stored = storedArtifact C a.store.provider (a.uploaded uploadId) ∧
      a.store.objects.lookup (C.sha256 (a.uploaded uploadId)) = some (a.uploaded uploadId)

structure Archive.Inv (C : ByteCodec) (contents : Set (List UInt8)) (a : Archive) : Prop where
  objects : ∀ digest bytes, a.store.objects.lookup digest = some bytes →
    C.sha256 bytes = digest ∧ bytes ∈ contents
  uploads : ∀ uploadId upload, a.store.activeUploads.lookup uploadId = some upload →
    upload.Holds C a uploadId
  lengths : ∀ uploadId, (a.uploaded uploadId).length < 2 ^ 64

/-- A later store: its provider has its name, and every object it had. -/
structure ArtifactStore.Keeps (old new : ArtifactStore) : Prop where
  provider : new.provider = old.provider
  objects : ∀ digest bytes, old.objects.lookup digest = some bytes →
    new.objects.lookup digest = some bytes

theorem ArtifactStore.Keeps.refl (store : ArtifactStore) : store.Keeps store :=
  ⟨rfl, fun _ _ h => h⟩

theorem ArtifactStore.Keeps.trans {old mid new : ArtifactStore} (h : old.Keeps mid)
    (h' : mid.Keeps new) : old.Keeps new :=
  ⟨h'.provider.trans h.provider, fun digest bytes hobject =>
    h'.objects digest bytes (h.objects digest bytes hobject)⟩

section Invariant

variable {C : ByteCodec} {contents : Set (List UInt8)} {a a' : Archive}
  {store published : ArtifactStore} {uploadId : String} {bytes : List UInt8}

/-- An upload that a step left alone. -/
theorem Upload.Holds.mono {upload : Upload} (h : upload.Holds C a uploadId)
    (hkeeps : a.store.Keeps a'.store)
    (hparts : a'.store.parts.lookup uploadId = a.store.parts.lookup uploadId)
    (haccepted : a'.accepted uploadId = a.accepted uploadId) : upload.Holds C a' uploadId := by
  have huploaded : a'.uploaded uploadId = a.uploaded uploadId := by
    unfold Archive.uploaded
    rw [haccepted]
  unfold Upload.Holds at h ⊢
  rw [huploaded]
  cases hcommitted : upload.committed with
  | none =>
    simp only [hcommitted] at h ⊢
    rw [hparts, h]
  | some stored =>
    simp only [hcommitted] at h ⊢
    rw [hkeeps.provider]
    exact ⟨h.1, hkeeps.objects _ _ h.2⟩

/-- What publishing some bytes does: the object is there, and nothing else is new. -/
theorem publish_spec (hlawful : C.Lawful contents)
    (hobjects : ∀ digest bytes, store.objects.lookup digest = some bytes →
      C.sha256 bytes = digest ∧ bytes ∈ contents) (uploadId : String) (hbytes : bytes ∈ contents) :
    ∃ published, store.publish C uploadId bytes = .ok published ∧ store.Keeps published ∧
      published.parts = ArtifactStore.remove uploadId store.parts ∧
      published.activeUploads = store.activeUploads ∧
      published.objects.lookup (C.sha256 bytes) = some bytes ∧
      ∀ digest object, published.objects.lookup digest = some object →
        C.sha256 object = digest ∧ object ∈ contents := by
  unfold ArtifactStore.publish
  cases hobject : store.objects.lookup (C.sha256 bytes) with
  | some existing =>
    obtain ⟨hdigest, hexisting⟩ := hobjects _ _ hobject
    obtain rfl : existing = bytes := hlawful.injective hexisting hbytes hdigest
    refine ⟨{ store with parts := ArtifactStore.remove uploadId store.parts }, ?_, ⟨rfl, ?_⟩, rfl,
      rfl, hobject, hobjects⟩
    · simp
    · exact fun _ _ h => h
  | none =>
    refine ⟨_, rfl, ⟨rfl, fun digest object h => ?_⟩, rfl, rfl, ?_, fun digest object h => ?_⟩
    · have hne : digest ≠ C.sha256 bytes := by
        rintro rfl
        rw [hobject] at h
        cases h
      rw [Table.lookup_insertEntry_of_ne hne]
      exact h
    · exact Table.lookup_insertEntry_self _ _ _
    · by_cases hdigest : digest = C.sha256 bytes
      · rw [hdigest, Table.lookup_insertEntry_self] at h
        obtain rfl := Option.some.inj h
        exact ⟨hdigest.symm, hbytes⟩
      · rw [Table.lookup_insertEntry_of_ne hdigest] at h
        exact hobjects digest object h

theorem checkAppend_eq_ok {offset nextOffset : ℕ} {part : List UInt8}
    (h : store.checkAppend uploadId offset bytes = .ok (part, nextOffset)) :
    ∃ upload, store.activeUploads.lookup uploadId = some upload ∧ upload.committed = none ∧
      store.parts.lookup uploadId = some part ∧ part.length = offset ∧
      part.length + bytes.length < 2 ^ 64 := by
  unfold ArtifactStore.checkAppend at h
  cases hupload : store.activeUploads.lookup uploadId with
  | none => simp [hupload] at h
  | some upload =>
    simp only [hupload] at h
    split at h
    · cases h
    · rename_i hopen
      cases hpart : store.parts.lookup uploadId with
      | none => simp [hpart] at h
      | some found =>
        simp only [hpart] at h
        split at h
        · cases h
        · rename_i hoffset
          split at h
          · cases h
          · rename_i hlength
            split at h
            · cases h
            · cases h
              exact ⟨upload, rfl, by simpa using hopen, rfl, not_not.mp hoffset, not_le.mp hlength⟩

/-- What a commit does, and that a repeated one answers the same. -/
theorem commit_spec (hlawful : C.Lawful contents) (inv : a.Inv C contents) {uploadId : String}
    (hwithin : a.uploaded uploadId ∈ contents) :
    (∃ error, a.store.commit C uploadId = (.error error, a.store)) ∨
    ∃ upload store, a.store.activeUploads.lookup uploadId = some upload ∧
      a.store.commit C uploadId =
        (.ok (upload.data, storedArtifact C a.store.provider (a.uploaded uploadId)), store) ∧
      Archive.Inv C contents { a with store } ∧ a.store.Keeps store ∧
      store.objects.lookup (C.sha256 (a.uploaded uploadId)) = some (a.uploaded uploadId) := by
  unfold ArtifactStore.commit
  cases hupload : a.store.activeUploads.lookup uploadId with
  | none => exact Or.inl ⟨_, rfl⟩
  | some upload =>
    have hholds := inv.uploads _ _ hupload
    cases hcommitted : upload.committed with
    | some stored =>
      simp only [Upload.Holds, hcommitted] at hholds
      refine Or.inr ⟨upload, a.store, rfl, ?_, inv, .refl _, hholds.2⟩
      simp only [hcommitted, hholds.1]
    | none =>
      simp only [Upload.Holds, hcommitted] at hholds
      simp only [hcommitted, hholds]
      cases hexpected : ArtifactStore.checkExpected C upload.data (a.uploaded uploadId) with
      | error error => exact Or.inl ⟨error, rfl⟩
      | ok _ =>
        obtain ⟨published, hpublished, hkeeps, hparts, hactive, hobject, hobjects⟩ :=
          publish_spec hlawful inv.objects uploadId hwithin
        simp only [hpublished]
        refine Or.inr ⟨upload, _, rfl, rfl, ⟨hobjects, fun other found hfound => ?_, inv.lengths⟩,
          ⟨hkeeps.provider, hkeeps.objects⟩, hobject⟩
        by_cases hother : other = uploadId
        · subst hother
          rw [Table.lookup_insertEntry_self] at hfound
          obtain rfl := Option.some.inj hfound
          exact ⟨by rw [hkeeps.provider]; rfl, hobject⟩
        · rw [Table.lookup_insertEntry_of_ne hother, hactive] at hfound
          refine (inv.uploads _ _ hfound).mono ⟨hkeeps.provider, hkeeps.objects⟩ ?_ rfl
          rw [hparts, ArtifactStore.lookup_remove_of_ne hother]

/-- A chunk is accepted at the end of what was accepted before it, or nothing happens. -/
theorem append_spec (inv : a.Inv C contents) (uploadId : String) (offset : ℕ) (bytesBase64 : String) :
    (∃ error, a.store.append C uploadId offset bytesBase64 = (.error error, a.store) ∧
      a.step C (.append uploadId offset bytesBase64) = a) ∨
    ∃ bytes upload, C.decode bytesBase64 = some bytes ∧ bytes ≠ [] ∧
      bytes.length ≤ maxArtifactChunkBytes ∧ offset = (a.uploaded uploadId).length ∧
      a.store.activeUploads.lookup uploadId = some upload ∧ upload.committed = none ∧
      (a.uploaded uploadId).length + bytes.length < 2 ^ 64 ∧
      a.step C (.append uploadId offset bytesBase64) =
        ⟨{ a.store with
            parts := Table.insertEntry uploadId (a.uploaded uploadId ++ bytes) a.store.parts },
          Function.update a.accepted uploadId (a.accepted uploadId ++ [bytes])⟩ := by
  dsimp only [Archive.step, ArtifactStore.append]
  cases hdecoded : C.decode bytesBase64 with
  | none =>
    simp only [ArtifactStore.decodeChunk, hdecoded]
    exact Or.inl ⟨_, rfl, trivial⟩
  | some bytes =>
    by_cases hsize : bytes = [] ∨ maxArtifactChunkBytes < bytes.length
    · simp only [ArtifactStore.decodeChunk, hdecoded, if_pos hsize]
      exact Or.inl ⟨_, rfl, trivial⟩
    · simp only [ArtifactStore.decodeChunk, hdecoded, if_neg hsize]
      cases hcheck : a.store.checkAppend uploadId offset bytes with
      | error error => exact Or.inl ⟨error, rfl, rfl⟩
      | ok target =>
        obtain ⟨part, nextOffset⟩ := target
        obtain ⟨upload, hupload, hopen, hpart, hoffset, hlength⟩ := checkAppend_eq_ok hcheck
        have hholds := inv.uploads _ _ hupload
        simp only [Upload.Holds, hopen, hpart, Option.some.injEq] at hholds
        subst hholds
        exact Or.inr ⟨bytes, upload, rfl, fun hempty => hsize (Or.inl hempty), by omega,
          hoffset.symm, hupload, hopen, hlength, rfl⟩

/-- Every request keeps the invariant and every object. -/
theorem Archive.Inv.step (hlawful : C.Lawful contents) (inv : a.Inv C contents)
    {event : ArchiveEvent} (hwithin : a.Within contents event) : (a.step C event).Inv C contents ∧
      a.store.Keeps (a.step C event).store := by
  cases event with
  | begin uploadId data =>
    dsimp only [Archive.step, ArtifactStore.begin]
    cases hpart : a.store.parts.lookup uploadId with
    | some part => exact ⟨inv, .refl _⟩
    | none =>
      have hkeeps : a.store.Keeps { a.store with
          parts := Table.insertEntry uploadId [] a.store.parts
          activeUploads := Table.insertEntry uploadId ⟨data, none⟩ a.store.activeUploads } :=
        ⟨rfl, fun _ _ h => h⟩
      refine ⟨⟨inv.objects, fun other found hfound => ?_, fun other => ?_⟩, hkeeps⟩
      · by_cases hother : other = uploadId
        · subst hother
          rw [Table.lookup_insertEntry_self] at hfound
          obtain rfl := Option.some.inj hfound
          simp [Upload.Holds, Archive.uploaded, Table.lookup_insertEntry_self]
        · rw [Table.lookup_insertEntry_of_ne hother] at hfound
          refine (inv.uploads _ _ hfound).mono hkeeps ?_ ?_
          · exact Table.lookup_insertEntry_of_ne hother _ _
          · exact Function.update_of_ne hother _ _
      · by_cases hother : other = uploadId
        · subst hother
          simp [Archive.uploaded]
        · simpa only [Archive.uploaded, Function.update_of_ne hother] using inv.lengths other
  | append uploadId offset bytesBase64 =>
    rcases append_spec inv uploadId offset bytesBase64 with ⟨error, -, hsame⟩ |
      ⟨bytes, upload, -, -, -, -, hupload, hopen, hlength, hstep⟩
    · rw [hsame]
      exact ⟨inv, .refl _⟩
    · rw [hstep]
      have hkeeps : a.store.Keeps { a.store with
          parts := Table.insertEntry uploadId (a.uploaded uploadId ++ bytes) a.store.parts } :=
        ⟨rfl, fun _ _ h => h⟩
      refine ⟨⟨inv.objects, fun other found hfound => ?_, fun other => ?_⟩, hkeeps⟩
      · by_cases hother : other = uploadId
        · subst hother
          obtain rfl := Option.some.inj (hupload.symm.trans hfound)
          simp [Upload.Holds, hopen, Archive.uploaded, Table.lookup_insertEntry_self]
        · refine (inv.uploads _ _ hfound).mono hkeeps ?_ ?_
          · exact Table.lookup_insertEntry_of_ne hother _ _
          · exact Function.update_of_ne hother _ _
      · by_cases hother : other = uploadId
        · subst hother
          simpa [Archive.uploaded] using hlength
        · simpa only [Archive.uploaded, Function.update_of_ne hother] using inv.lengths other
  | commit uploadId =>
    dsimp only [Archive.step]
    rcases commit_spec hlawful inv hwithin with ⟨error, hcommit⟩ | ⟨upload, store, -, hcommit,
      hinv, hkeeps, -⟩
    · rw [hcommit]
      exact ⟨inv, .refl _⟩
    · rw [hcommit]
      exact ⟨hinv, hkeeps⟩
  | finish uploadId =>
    refine ⟨⟨inv.objects, fun other found hfound => ?_, inv.lengths⟩, ⟨rfl, fun _ _ h => h⟩⟩
    have hother : other ≠ uploadId := by
      rintro rfl
      rw [Archive.step, ArtifactStore.finish, ArtifactStore.lookup_remove_self] at hfound
      cases hfound
    have hactive := (ArtifactStore.lookup_remove_of_ne hother _).symm.trans hfound
    exact (inv.uploads _ _ hactive).mono ⟨rfl, fun _ _ h => h⟩ rfl rfl
  | reopen => exact ⟨⟨inv.objects, fun _ _ h => (nomatch h), inv.lengths⟩, ⟨rfl, fun _ _ h => h⟩⟩
  | crashInCommit uploadId =>
    dsimp only [Archive.step]
    rcases commit_spec hlawful inv hwithin with ⟨error, hcommit⟩ | ⟨upload, store, -, hcommit,
      hinv, hkeeps, -⟩
    · rw [hcommit]
      exact ⟨⟨inv.objects, fun _ _ h => (nomatch h), inv.lengths⟩, ⟨rfl, fun _ _ h => h⟩⟩
    · rw [hcommit]
      exact ⟨⟨hinv.objects, fun _ _ h => (nomatch h), inv.lengths⟩, ⟨hkeeps.provider, hkeeps.objects⟩⟩

theorem ArchiveRuns.keeps (hlawful : C.Lawful contents) (h : ArchiveRuns C contents a a')
    (inv : a.Inv C contents) :
    a'.Inv C contents ∧ a.store.Keeps a'.store := by
  induction h with
  | refl => exact ⟨inv, .refl _⟩
  | tail _ hstep ih =>
    obtain ⟨event, hwithin, rfl⟩ := hstep
    obtain ⟨hinv, hkeeps⟩ := ih.1.step hlawful hwithin
    exact ⟨hinv, ih.2.trans hkeeps⟩

/-- **An object has the digest it is named by.** -/
theorem ArchiveReached.inv (hlawful : C.Lawful contents) (h : ArchiveReached C contents a) :
    a.Inv C contents := by
  obtain ⟨provider, hruns⟩ := h
  refine (hruns.keeps hlawful ⟨fun _ _ h => ?_, fun _ _ h => ?_, fun _ => Nat.two_pow_pos 64⟩).1 <;>
    cases h

end Invariant

/-! ### Round trips -/

section RoundTrip

variable {C : ByteCodec} {contents : Set (List UInt8)} {bytes : List UInt8}

/-- Read an object from an offset on, in chunks. The store is as it is when a chunk is read. -/
def readChunks (C : ByteCodec) (stores : ℕ → ArtifactStore) (provider key : String)
    (maxBytes : ℕ) : ℕ → ℕ → Option (List (List UInt8))
  | 0, _ => none
  | fuel + 1, offset =>
    match (stores offset).read C provider key offset maxBytes with
    | .error _ => none
    | .ok chunk => do
      let bytes ← C.decode chunk.bytesBase64
      if chunk.eof then return [bytes]
      else
        let rest ← readChunks C stores provider key maxBytes fuel chunk.nextOffset
        return bytes :: rest

/-- **The chunks of an object are the object.** -/
theorem readChunks_eq (hlawful : C.Lawful contents) {stores : ℕ → ArtifactStore} {provider : String}
    (hprovider : ∀ offset, (stores offset).provider = provider)
    (hobject : ∀ offset, (stores offset).objects.lookup (C.sha256 bytes) = some bytes)
    {maxBytes : ℕ} (hmax : 0 < maxBytes) (hlimit : maxBytes ≤ maxArtifactChunkBytes)
    {fuel offset : ℕ} (hoffset : offset ≤ bytes.length) (hfuel : bytes.length - offset < fuel) :
    ∃ chunks, readChunks C stores provider ("sha256/" ++ C.sha256 bytes) maxBytes fuel offset =
      some chunks ∧ chunks.flatten = bytes.drop offset := by
  induction fuel generalizing offset with
  | zero => omega
  | succ fuel ih =>
    have hread := read_stored hlawful (hobject offset) hoffset hmax hlimit
    rw [hprovider offset] at hread
    unfold readChunks
    simp only [hread, hlawful.decode_encode, Option.bind_eq_bind, Option.bind_some,
      decide_eq_true_eq]
    by_cases hend : offset + min (bytes.length - offset) maxBytes = bytes.length
    · refine ⟨_, if_pos hend, ?_⟩
      rw [List.flatten_singleton, List.take_of_length_le]
      rw [List.length_drop]
      omega
    · rw [if_neg hend]
      have hnext : offset + min (bytes.length - offset) maxBytes = offset + maxBytes := by omega
      rw [hnext]
      have hinside : offset + maxBytes ≤ bytes.length := by omega
      obtain ⟨chunks, hchunks, hflatten⟩ := ih hinside (by omega)
      refine ⟨_, by rw [hchunks]; rfl, ?_⟩
      rw [List.flatten_cons, hflatten, ← List.drop_drop, List.take_append_drop]

end RoundTrip

end Patchouli
