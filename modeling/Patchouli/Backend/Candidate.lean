import Patchouli.Backend.Conflict

/-!
# Candidates

Between stored versions and conflict candidates: the functions of `engine.rs` that read the bases
and the concurrent heads of a mutation out of a snapshot, turn versions into candidates, and turn
the variants of a resolution back into versions.

Versions that are created draw their names, and documents their actors, at random. A draw is a
parameter: `names i` is the name of the variant at position `i`, `actors p` the actor of the field
at path `p`.

## Main definitions

* `selectedBases`, `concurrentHeads`, `rejectUnlessExactHeads`
* `prepareCandidate`, `storedCandidate`
* `Offer`, `Offer.add` — the loop that splits versions into candidates and tombstones
* `keepVariants` — the heads and the new versions of a resolution
-/

namespace Patchouli

open Json (Value)

/-! ### Errors -/

/-- `invalid_request`. -/
def invalidRequest (message : String) : BackendError := BackendError.new .invalidRequest message

/-- `provider_corruption`. -/
def providerCorruption (message : String) : BackendError := BackendError.new .overloaded message

/-- `reject_fallback`. -/
def rejectFallback : ConflictFallback → Except BackendError Unit
  | .mvcc => .ok ()
  | .reject =>
    .error (BackendError.new .versionConflict "candidate is outside the configured merge rules")

/-! ### Versions of a snapshot -/

/-- A version of a snapshot by its name. -/
def EntitySnapshot.version? (snapshot : EntitySnapshot) (name : String) :
    Option StoredEntityVersion :=
  snapshot.versions.find? (·.version = name)

/-- `snapshot_version`. -/
def snapshotVersion (snapshot : EntitySnapshot) (name : String) :
    Except BackendError StoredEntityVersion :=
  match snapshot.version? name with
  | some stored => .ok stored
  | none => .error (providerCorruption "entity head version is missing")

/-- The names in `base_versions`, in order. -/
def baseNames (snapshot : EntitySnapshot) :
    List Value → (names : List String) → Except BackendError (List String)
  | [], names => .ok (Table.sorted names)
  | .string name :: rest, names =>
    if name ∈ names then .error (invalidRequest "base_versions must not contain duplicates")
    else baseNames snapshot rest (name :: names)
  | _ :: _, _ => .error (invalidRequest "base_versions must contain only strings")

/-- `selected_bases`. -/
def selectedBases (plan : ConflictPlan) (snapshot : EntitySnapshot) :
    Except BackendError (List StoredEntityVersion) :=
  match plan.baseVersions with
  | some (.array values) =>
    if values = [] then .error (invalidRequest "base_versions must not be empty")
    else do
      let names ← baseNames snapshot values []
      names.mapM fun name =>
        match snapshot.version? name with
        | some stored => .ok stored
        | none => .error (BackendError.headsMoved snapshot.headVersions)
  | _ =>
    .error (invalidRequest ("metadata field " ++ plan.baseVersionsField.quote ++ " is required"))

/-- `concurrent_heads`. -/
def concurrentHeads (snapshot : EntitySnapshot) (bases : List StoredEntityVersion) :
    Except BackendError (List StoredEntityVersion) :=
  (snapshot.headVersions.filter (· ∉ bases.map (·.version))).mapM fun name =>
    match snapshot.version? name with
    | some stored => .ok stored
    | none => .error (providerCorruption "current head version is missing")

/-- `reject_unless_exact_heads`. -/
def rejectUnlessExactHeads (plan : ConflictPlan) (snapshot : EntitySnapshot)
    (bases : List StoredEntityVersion) : Except BackendError Unit :=
  if plan.strategy ≠ .reject then .ok ()
  else if bases.map (·.version) ⊆ snapshot.headVersions ∧
      snapshot.headVersions ⊆ bases.map (·.version) then .ok ()
  else .error (BackendError.headsMoved snapshot.headVersions)

/-- `stored_value`. -/
def storedValue (stored : StoredEntityVersion) : Except BackendError Value :=
  match stored.valueJson with
  | some value => .ok value
  | none => .error (providerCorruption "active version has no JSON value")

/-! ### CRDT fields -/

/-- `same_merge_group`. -/
def sameMergeGroup (rule : ConflictMergeRule) (left right : Value) : Bool :=
  rule.groupBy.all fun pointer => left.pointer pointer = right.pointer pointer

section Fields

variable (A : Automerge)

/-- `load_crdt_document`. -/
def loadCrdtDocument (field : StoredCrdtField) : Except BackendError CrdtDocument :=
  (CrdtDocument.fromChanges A field.changes field.heads).mapError conflictBackendError

/-- A stored field next to the value it must hold. -/
def loadMatching (field : StoredCrdtField) (value : Value) : Except BackendError CrdtDocument := do
  let document ← loadCrdtDocument A field
  if document.json A ≠ value then
    .error (providerCorruption "stored CRDT field does not match materialized entity JSON")
  else return document

/-- `initial_crdt_fields`. -/
def initialCrdtFields (actors : String → String) (plan : ConflictPlan) (value : Value) :
    List (String × CrdtDocument) :=
  plan.merge.foldl (fun fields rule =>
    match value.pointer rule.path with
    | some field =>
      Table.insertEntry rule.path (CrdtDocument.fromJson A (actors rule.path) field) fields
    | none => fields) []

/-- One base of a merge rule in `prepare_candidate`: its document, unless the rule cannot use
it. -/
def baseDocument (rule : ConflictMergeRule) (proposed : Value) (base : StoredEntityVersion) :
    Except BackendError (Option CrdtDocument) :=
  if base.state ≠ .active then .ok none
  else do
    let value ← storedValue base
    match value.pointer rule.path with
    | none => return none
    | some baseField =>
      if !sameMergeGroup rule baseField proposed then return none
      else
        match base.crdtFields.find? (·.path = rule.path) with
        | none => return none
        | some field => do
          let document ← loadMatching A field baseField
          return some document

/-- The documents of all bases; `none` as soon as one cannot be used. -/
def baseDocuments (plan : ConflictPlan) (rule : ConflictMergeRule) (proposed : Value) :
    List StoredEntityVersion → Except BackendError (Option (List CrdtDocument))
  | [] => .ok (some [])
  | base :: rest => do
    match ← baseDocument A rule proposed base with
    | none => do
      rejectFallback plan.otherwise
      return none
    | some document =>
      match ← baseDocuments plan rule proposed rest with
      | none => return none
      | some documents => return some (document :: documents)

/-- One rule of `prepare_candidate`. -/
def prepareField (actors : String → String) (plan : ConflictPlan)
    (bases : List StoredEntityVersion) (value : Value) (fields : List (String × CrdtDocument))
    (rule : ConflictMergeRule) : Except BackendError (List (String × CrdtDocument)) :=
  match value.pointer rule.path with
  | none => do
    rejectFallback plan.otherwise
    return fields
  | some proposed => do
    match ← baseDocuments A plan rule proposed bases with
    | some documents => do
      let base ← (CrdtDocument.merge documents).mapError conflictBackendError
      return Table.insertEntry rule.path (base.change A (actors rule.path) proposed) fields
    | none =>
      return Table.insertEntry rule.path
        (CrdtDocument.fromJson A (actors rule.path) proposed) fields

/-- `prepare_candidate`. -/
def prepareCandidate (actors : String → String) (plan : ConflictPlan)
    (bases : List StoredEntityVersion) (value : Value) :
    Except BackendError ConflictCandidate := do
  let crdtFields ← plan.merge.foldlM (prepareField A actors plan bases value) []
  return { value, crdtFields, sourceVersion := none }

/-- `stored_candidate`. -/
def storedCandidate (version : StoredEntityVersion) : Except BackendError ConflictCandidate := do
  let value ← storedValue version
  let crdtFields ← version.crdtFields.foldlM (fun fields field => do
    let document ← loadCrdtDocument A field
    match value.pointer field.path with
    | none => .error (providerCorruption "stored CRDT field path is absent")
    | some stored =>
      if document.json A ≠ stored then
        .error (providerCorruption "stored CRDT field does not match materialized entity JSON")
      else return Table.insertEntry field.path document fields) []
  return { value, crdtFields, sourceVersion := some version.version }

/-! ### Offers -/

/-- What goes into a resolution: the candidates and, next to them, the tombstones. -/
structure Offer where
  candidates : List ConflictCandidate
  deleted : List String

/-- Add a version to an offer. -/
def Offer.add (offer : Offer) (version : StoredEntityVersion) : Except BackendError Offer :=
  match version.state with
  | .active => do
    let candidate ← storedCandidate A version
    return { offer with candidates := offer.candidates ++ [candidate] }
  | .deleted => .ok { offer with deleted := offer.deleted ++ [version.version] }

/-- Add versions to an offer, in order. -/
def Offer.addAll (offer : Offer) (versions : List StoredEntityVersion) :
    Except BackendError Offer :=
  versions.foldlM (Offer.add A) offer

end Fields

/-- A version some offer is made of: a tombstone it preserves, or the source of a candidate. -/
def Offer.Offers (offer : Offer) (version : String) : Prop :=
  version ∈ offer.deleted ∨ some version ∈ offer.candidates.map (·.sourceVersion)

/-! ### New versions -/

/-- `stored_crdt_field`. -/
def storedCrdtField (entry : String × CrdtDocument) : StoredCrdtField :=
  { path := entry.1, heads := entry.2.heads, changes := entry.2.changes }

/-- `active_stored_version`. -/
def activeStoredVersion (version : String) (value : Value)
    (crdtFields : List (String × CrdtDocument)) : StoredEntityVersion :=
  { version, state := .active, valueJson := some value
    crdtFields := crdtFields.map storedCrdtField }

/-- What a resolution leaves: the heads, and those of them that are new. -/
structure Kept where
  headVersions : List String
  newVersions : List StoredEntityVersion

/-- One turn of the loop over the variants: a variant that is still a stored version stays it, any
other becomes a new version. -/
def Kept.add (names : ℕ → String) (kept : Kept) (entry : ConflictCandidate × ℕ) : Kept :=
  match entry.1.sourceVersion with
  | some version => { kept with headVersions := kept.headVersions ++ [version] }
  | none =>
    { headVersions := kept.headVersions ++ [names entry.2]
      newVersions := kept.newVersions ++
        [activeStoredVersion (names entry.2) entry.1.value entry.1.crdtFields] }

/-- The heads and new versions of a resolution. -/
def keepVariants (names : ℕ → String) (deleted : List String)
    (variants : List ConflictCandidate) : Kept :=
  variants.zipIdx.foldl (Kept.add names) { headVersions := deleted, newVersions := [] }

/-- The head a variant becomes. -/
def variantHead (names : ℕ → String) (entry : ConflictCandidate × ℕ) : String :=
  entry.1.sourceVersion.getD (names entry.2)

/-- The version a variant becomes, where it is new. -/
def variantVersion (names : ℕ → String) (entry : ConflictCandidate × ℕ) :
    Option StoredEntityVersion :=
  match entry.1.sourceVersion with
  | some _ => none
  | none => some (activeStoredVersion (names entry.2) entry.1.value entry.1.crdtFields)

theorem foldl_keptAdd (names : ℕ → String) (entries : List (ConflictCandidate × ℕ)) (kept : Kept) :
    entries.foldl (Kept.add names) kept =
      { headVersions := kept.headVersions ++ entries.map (variantHead names)
        newVersions := kept.newVersions ++ entries.filterMap (variantVersion names) } := by
  induction entries generalizing kept with
  | nil => simp
  | cons entry entries ih =>
    rw [List.foldl_cons, ih]
    cases hsource : entry.1.sourceVersion with
    | none => simp [Kept.add, variantHead, variantVersion, hsource]
    | some version => simp [Kept.add, variantHead, variantVersion, hsource]

/-- The loop over the variants, variant by variant. -/
theorem keepVariants_eq (names : ℕ → String) (deleted : List String)
    (variants : List ConflictCandidate) :
    keepVariants names deleted variants =
      { headVersions := deleted ++ variants.zipIdx.map (variantHead names)
        newVersions := variants.zipIdx.filterMap (variantVersion names) } := by
  rw [keepVariants, foldl_keptAdd, List.nil_append]

end Patchouli
