import Patchouli.Artifact.Download

/-!
# Appends that fail

An append may fail at each of its file operations: when it asks for the length of the part file,
when it opens it, and when it writes, and then some first bytes of the chunk may be in the file. The
next offset is the length of the file, and nothing takes the bytes away again. So the append can be
repeated if and only if it wrote none of them. As long as no failed append writes any, the part file
holds what was accepted, and a commit is of the bytes of the chunks that were.

## Main definitions

* `ArtifactStore.appendWith` — an append that may fail
* `ArtifactStore.expectedOffset` — the next offset
* `SafelyReached` — archives in whose history failed appends wrote nothing

## Main results

* `ArtifactStore.retry_iff` — when an append can be repeated
* `failed_append_retryable_iff` — that, and what is committed
-/

namespace Patchouli

/-- Where an append fails. Of a write the first bytes may have reached the file. -/
inductive AppendFault where
  | metadata (detail : String)
  | openFile (detail : String)
  | write (written : ℕ) (detail : String)
  deriving DecidableEq

/-- What a failing append adds to the part file. -/
def AppendFault.wrote (fault : AppendFault) (bytes : List UInt8) : List UInt8 :=
  match fault with
  | .write written _ => bytes.take written
  | _ => []

namespace ArtifactStore

variable (C : ByteCodec) (store : ArtifactStore)

/-- What an `append` asks of its upload before it looks at the part file. -/
def checkUncommitted (uploadId : String) : Except ArtifactStoreError Unit :=
  match store.activeUploads.lookup uploadId with
  | none => .error .notFound
  | some upload =>
    if upload.committed.isSome then .error (.invalid "artifact upload is already committed")
    else .ok ()

/-- `ArtifactStore::append`, where a file operation may fail. -/
def appendWith (fault : Option AppendFault) (uploadId : String) (offset : ℕ)
    (bytesBase64 : String) : Except ArtifactStoreError ℕ × ArtifactStore :=
  match decodeChunk C bytesBase64 with
  | .error error => (.error error, store)
  | .ok bytes =>
    match fault with
    | some (.metadata detail) =>
      match store.checkUncommitted uploadId with
      | .error error => (.error error, store)
      | .ok () => (.error (.io detail), store)
    | _ =>
      match store.checkAppend uploadId offset bytes with
      | .error error => (.error error, store)
      | .ok (part, nextOffset) =>
        match fault with
        | some (.write written detail) => (.error (.io detail), { store with
            parts := Table.insertEntry uploadId (part ++ bytes.take written) store.parts })
        | some (.openFile detail) => (.error (.io detail), store)
        | _ => (.ok nextOffset, { store with
            parts := Table.insertEntry uploadId (part ++ bytes) store.parts })

/-- The offset an `append` is accepted at. -/
def expectedOffset (uploadId : String) : Option ℕ :=
  (store.parts.lookup uploadId).map (·.length)

variable {C store} {uploadId bytesBase64 : String} {offset nextOffset : ℕ}
  {bytes part : List UInt8} {fault : AppendFault}

/-- Without a failure it is the append. -/
theorem appendWith_none :
    store.appendWith C none uploadId offset bytesBase64 =
      store.append C uploadId offset bytesBase64 := by
  unfold appendWith append
  cases decodeChunk C bytesBase64 with
  | error => rfl
  | ok bytes =>
    cases hcheck : store.checkAppend uploadId offset bytes with
    | error => simp only [hcheck]
    | ok => simp only [hcheck]

/-- **A failing append** answers an error, and adds what it wrote. -/
theorem appendWith_failed (fault : AppendFault)
    (hdecoded : decodeChunk C bytesBase64 = .ok bytes)
    (hcheck : store.checkAppend uploadId offset bytes = .ok (part, nextOffset)) :
    ∃ error failed, store.appendWith C (some fault) uploadId offset bytesBase64 =
        (.error error, failed) ∧ failed.activeUploads = store.activeUploads ∧
      failed.parts.lookup uploadId = some (part ++ fault.wrote bytes) := by
  obtain ⟨upload, hupload, hopen, hpart, -, -⟩ := checkAppend_eq_ok hcheck
  unfold appendWith
  rw [hdecoded]
  cases fault with
  | metadata detail =>
    simp only [checkUncommitted, hupload, hopen, Option.isSome_none, Bool.false_eq_true, if_false]
    exact ⟨_, _, rfl, rfl, by simpa [AppendFault.wrote] using hpart⟩
  | openFile detail =>
    simp only [hcheck]
    exact ⟨_, _, rfl, rfl, by simpa [AppendFault.wrote] using hpart⟩
  | write written detail =>
    simp only [hcheck]
    exact ⟨_, _, rfl, rfl, Table.lookup_insertEntry_self _ _ _⟩

/-- An append is checked against its upload and the length of its part file only. -/
theorem checkAppend_congr {other : ArtifactStore}
    (hactive : other.activeUploads = store.activeUploads)
    (hparts : other.parts.lookup uploadId = store.parts.lookup uploadId) :
    other.checkAppend uploadId offset bytes = store.checkAppend uploadId offset bytes := by
  unfold checkAppend
  rw [hactive, hparts]

/-- A chunk is refused at every offset but the length of the part file. -/
theorem checkAppend_of_ne {upload : Upload}
    (hupload : store.activeUploads.lookup uploadId = some upload) (hopen : upload.committed = none)
    (hpart : store.parts.lookup uploadId = some part) (hne : part.length ≠ offset) :
    store.checkAppend uploadId offset bytes = .error (.invalid ("chunk offset " ++ toString offset ++
      " does not match next offset " ++ toString part.length)) := by
  unfold checkAppend
  simp only [hupload, hopen, hpart, Option.isSome_none, Bool.false_eq_true, if_false, if_pos hne]

/-- **An append that failed can be repeated** if and only if it wrote nothing: the next offset is
then the one before it, and otherwise it is not. -/
theorem retry_iff (hdecoded : decodeChunk C bytesBase64 = .ok bytes)
    (hcheck : store.checkAppend uploadId offset bytes = .ok (part, nextOffset)) :
    let failed := (store.appendWith C (some fault) uploadId offset bytesBase64).2
    (failed.expectedOffset uploadId = store.expectedOffset uploadId ↔ fault.wrote bytes = []) ∧
      ((failed.append C uploadId offset bytesBase64).1 = .ok nextOffset ↔
        fault.wrote bytes = []) := by
  obtain ⟨error, failed, hfailed, hactive, hparts⟩ :=
    appendWith_failed fault hdecoded hcheck
  obtain ⟨upload, hupload, hopen, hpart, hoffset, -⟩ := checkAppend_eq_ok hcheck
  rw [hfailed]
  refine ⟨?_, ?_⟩
  · simp [expectedOffset, hparts, hpart]
  · unfold append
    rw [hdecoded]
    dsimp only
    by_cases hnothing : fault.wrote bytes = []
    · rw [hnothing, List.append_nil] at hparts
      rw [checkAppend_congr hactive (hparts.trans hpart.symm), hcheck]
      simp [hnothing]
    · have hlonger : (part ++ fault.wrote bytes).length ≠ offset := by
        have := List.length_pos_iff.mpr hnothing
        rw [List.length_append]
        omega
      rw [checkAppend_of_ne (hactive ▸ hupload) hopen hparts hlonger]
      simp [hnothing]

/-- An append that fails before its check, or is refused, leaves the store alone. -/
theorem appendWith_refused {error : ArtifactStoreError}
    (hdecoded : decodeChunk C bytesBase64 = .ok bytes)
    (hcheck : store.checkAppend uploadId offset bytes = .error error) :
    (store.appendWith C (some fault) uploadId offset bytesBase64).2 = store := by
  unfold appendWith
  rw [hdecoded]
  cases fault with
  | metadata detail =>
    dsimp only
    split <;> rfl
  | openFile => simp only [hcheck]
  | write => simp only [hcheck]

/-- The store after a failed append, as it is looked at. -/
theorem appendWith_lookups (fault : AppendFault) (uploadId : String) (offset : ℕ)
    (bytesBase64 : String)
    (hwrote : ∀ bytes, decodeChunk C bytesBase64 = .ok bytes → fault.wrote bytes = []) :
    let failed := (store.appendWith C (some fault) uploadId offset bytesBase64).2
    failed.provider = store.provider ∧ failed.objects = store.objects ∧
      failed.activeUploads = store.activeUploads ∧
      ∀ other, failed.parts.lookup other = store.parts.lookup other := by
  cases hdecoded : decodeChunk C bytesBase64 with
  | error error => simp [appendWith, hdecoded]
  | ok bytes =>
    cases hcheck : store.checkAppend uploadId offset bytes with
    | error error => simp [appendWith_refused hdecoded hcheck]
    | ok target =>
      obtain ⟨part, nextOffset⟩ := target
      obtain ⟨upload, hupload, hopen, hpart, -, -⟩ := checkAppend_eq_ok hcheck
      have hnothing := hwrote bytes hdecoded
      unfold appendWith
      rw [hdecoded]
      cases fault with
      | metadata detail =>
        simp only [checkUncommitted, hupload, hopen, Option.isSome_none, Bool.false_eq_true, if_false]
        exact ⟨trivial, trivial, trivial, fun _ => trivial⟩
      | openFile detail =>
        simp only [hcheck]
        exact ⟨trivial, trivial, trivial, fun _ => trivial⟩
      | write written detail =>
        simp only [AppendFault.wrote] at hnothing
        simp only [hcheck, hnothing, List.append_nil]
        refine ⟨trivial, trivial, trivial, fun other => ?_⟩
        by_cases hother : other = uploadId
        · rw [hother, Table.lookup_insertEntry_self, hpart]
        · exact Table.lookup_insertEntry_of_ne hother _ _

end ArtifactStore

/-! ### Histories with failures -/

/-- A request to the store, or an append that fails. -/
inductive FallibleEvent where
  | request (event : ArchiveEvent)
  | appendFails (fault : AppendFault) (uploadId : String) (offset : ℕ) (bytesBase64 : String)

namespace Archive

variable (C : ByteCodec) (a : Archive)

/-- One request, or one failure; a chunk whose append failed is not accepted. -/
def stepWith : FallibleEvent → Archive
  | .request event => a.step C event
  | .appendFails fault uploadId offset bytesBase64 =>
    { a with store := (a.store.appendWith C (some fault) uploadId offset bytesBase64).2 }

/-- A failed append wrote nothing. -/
def WroteNothing : FallibleEvent → Prop
  | .request _ => True
  | .appendFails fault _ _ bytesBase64 =>
    ∀ bytes, ArtifactStore.decodeChunk C bytesBase64 = .ok bytes → fault.wrote bytes = []

/-- What a request commits is among some contents. -/
def WithinEvent (contents : Set (List UInt8)) : FallibleEvent → Prop
  | .request event => a.Within contents event
  | .appendFails .. => True

end Archive

/-- The archives reached from an empty store while failed appends wrote nothing. -/
def SafelyReached (C : ByteCodec) (contents : Set (List UInt8)) (a : Archive) : Prop :=
  ∃ provider, Relation.ReflTransGen
    (fun a a' => ∃ event, Archive.WroteNothing C event ∧ a.WithinEvent contents event ∧
      a' = a.stepWith C event) ⟨⟨provider, [], [], []⟩, fun _ => []⟩ a

section Histories

variable {C : ByteCodec} {contents : Set (List UInt8)} {a : Archive}

/-- An archive is looked at through its maps. -/
theorem Archive.Inv.of_lookups (inv : a.Inv C contents) {store : ArtifactStore}
    (hprovider : store.provider = a.store.provider) (hobjects : store.objects = a.store.objects)
    (hactive : store.activeUploads = a.store.activeUploads)
    (hparts : ∀ other, store.parts.lookup other = a.store.parts.lookup other) :
    Archive.Inv C contents { a with store } := by
  refine ⟨fun digest bytes h => ?_, fun uploadId upload h => ?_, inv.lengths⟩
  · dsimp only at h
    rw [hobjects] at h
    exact inv.objects digest bytes h
  · dsimp only at h
    rw [hactive] at h
    refine (inv.uploads uploadId upload h).mono ⟨hprovider, fun digest bytes h => ?_⟩
      (hparts uploadId) rfl
    exact hobjects ▸ h

/-- **The part files hold what was accepted**, whatever failed before it wrote. -/
theorem SafelyReached.inv (hlawful : C.Lawful contents) (h : SafelyReached C contents a) :
    a.Inv C contents := by
  obtain ⟨provider, hruns⟩ := h
  induction hruns with
  | refl =>
    refine ⟨fun _ _ h => ?_, fun _ _ h => ?_, fun _ => Nat.two_pow_pos 64⟩ <;> cases h
  | tail _ hstep ih =>
    obtain ⟨event, hnothing, hwithin, rfl⟩ := hstep
    cases event with
    | request event => exact (ih.step hlawful hwithin).1
    | appendFails fault uploadId offset bytesBase64 =>
      obtain ⟨hprovider, hobjects, hactive, hparts⟩ :=
        ArtifactStore.appendWith_lookups fault uploadId offset bytesBase64 hnothing
      exact ih.of_lookups hprovider hobjects hactive hparts

/-- **When a failed append can be repeated**: if it wrote nothing, and only then, the next offset is
the one before it, and the same chunk is accepted there. In a history in which no failed append wrote
anything the next offset is the number of the accepted bytes, and a commit is of these bytes. -/
theorem failed_append_retryable_iff (hlawful : C.Lawful contents) :
    (∀ (store : ArtifactStore) uploadId offset bytesBase64 bytes part nextOffset fault,
      ArtifactStore.decodeChunk C bytesBase64 = .ok bytes →
      store.checkAppend uploadId offset bytes = .ok (part, nextOffset) →
      let failed := (store.appendWith C (some fault) uploadId offset bytesBase64).2
      (failed.expectedOffset uploadId = store.expectedOffset uploadId ↔ fault.wrote bytes = []) ∧
        ((failed.append C uploadId offset bytesBase64).1 = .ok nextOffset ↔
          fault.wrote bytes = [])) ∧
    ∀ a, SafelyReached C contents a → ∀ uploadId, a.uploaded uploadId ∈ contents →
      (∀ upload, a.store.activeUploads.lookup uploadId = some upload → upload.committed = none →
        a.store.expectedOffset uploadId = some (a.uploaded uploadId).length) ∧
      ∀ data stored, (a.store.commit C uploadId).1 = .ok (data, stored) →
        stored = storedArtifact C a.store.provider (a.uploaded uploadId) ∧
        (a.store.commit C uploadId).2.objects.lookup (C.sha256 (a.uploaded uploadId)) =
          some (a.uploaded uploadId) := by
  refine ⟨fun store uploadId offset bytesBase64 bytes part nextOffset fault hdecoded hcheck =>
    ArtifactStore.retry_iff hdecoded hcheck, fun a hreached uploadId hwithin => ?_⟩
  have inv := hreached.inv hlawful
  refine ⟨fun upload hupload hopen => ?_, fun data stored hcommit => ?_⟩
  · have hholds := inv.uploads uploadId upload hupload
    simp only [Upload.Holds, hopen] at hholds
    rw [ArtifactStore.expectedOffset, hholds, Option.map_some]
  · rcases commit_spec hlawful inv hwithin with ⟨error, hfailed⟩ |
      ⟨upload, store, -, hcommitted, -, -, hobject⟩
    · rw [hfailed] at hcommit
      cases hcommit
    · rw [hcommitted] at hcommit ⊢
      cases hcommit
      exact ⟨rfl, hobject⟩

end Histories

/-! ### Two letters -/

/-- An upload was begun. -/
def begunUpload : ArtifactStore :=
  { provider := "local", objects := [], parts := [("upload", [])]
    activeUploads := [("upload", ⟨⟨none, "text/plain", none, none, none, .null⟩, none⟩)] }

/-- The first of two letters reached the file. -/
def halfWritten : ArtifactStore :=
  (begunUpload.appendWith lettersCodec (some (.write 1 "disk full")) "upload" 0 "YWI=").2

/-- **The chunk is accepted, its append fails, and it is refused at its offset then.** -/
theorem half_written_is_refused :
    (begunUpload.append lettersCodec "upload" 0 "YWI=").1 = .ok 2 ∧
    begunUpload.expectedOffset "upload" = some 0 ∧ halfWritten.expectedOffset "upload" = some 1 ∧
    (halfWritten.append lettersCodec "upload" 0 "YWI=").1 =
      .error (.invalid "chunk offset 0 does not match next offset 1") := by
  refine ⟨by rfl, by rfl, by rfl, by rfl⟩

/-- An append that failed before it wrote can be repeated. -/
theorem unwritten_is_retried :
    (((begunUpload.appendWith lettersCodec (some (.write 0 "disk full")) "upload" 0 "YWI=").2).append
      lettersCodec "upload" 0 "YWI=").1 = .ok 2 :=
  ((failed_append_retryable_iff lettersCodec_lawful).1 begunUpload "upload" 0 "YWI=" [97, 98] [] 2
    (.write 0 "disk full") (by rfl) (by rfl)).2.mpr rfl

end Patchouli
