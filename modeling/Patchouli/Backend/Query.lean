import Patchouli.Backend.Candidate

/-!
# Retrieval queries and cursors

What `query.rs` does about the pages of a retrieval. A query is read into its parts, the parts are
digested into a fingerprint, and a cursor is admitted only by the query it was made for: the
fingerprint covers everything but the cursor and the limit, so that pages of one query may have
different sizes.

What JSON and SHA-256 make of a cursor and of a query is the parameter `QueryCodec`.

## Main definitions

* `QueryIdentity`, `QueryCodec`
* `parseCursor`, `parseQuery`
* `retrieve` — from a parsed query to the hits and the encoded cursor
-/

namespace Patchouli

/-- The parts of a query that its fingerprint covers. -/
structure QueryIdentity where
  scopeJson : String
  entityTypes : Option (List String)
  text : Option String
  entityIds : Option (List String)
  filters : List RetrieveFilter
  order : RetrieveOrder

/-- What `serde_json` and `Sha256::digest` answer. -/
structure QueryCodec where
  digest : QueryIdentity → String
  /-- `encode_cursor`. -/
  encode : RetrieveCursor → String
  decode : String → Except String RetrieveCursor

namespace QueryCodec

variable (codec : QueryCodec)

/-- An encoded cursor is decoded to itself. -/
def Keeps (cursor : RetrieveCursor) : Prop :=
  codec.decode (codec.encode cursor) = .ok cursor

/-- `parse_cursor`. A score is a rational number here, and so finite. -/
def parseCursor (value : Option String) (order : RetrieveOrder) (fingerprint : String) :
    Except BackendError (Option RetrieveCursor) :=
  match value with
  | none => .ok none
  | some encoded =>
    match codec.decode encoded with
    | .error error => .error (invalidRequest s!"invalid retrieval cursor: {error}")
    | .ok cursor =>
      if cursor.order ≠ order ∨ cursor.queryFingerprint ≠ fingerprint ∨
          cursor.entityType = "" ∨ cursor.entityId = "" then
        .error (invalidRequest "retrieval cursor does not match this query")
      else .ok (some cursor)

/-- A query with its fingerprint, after a cursor. -/
def query (identity : QueryIdentity) (after : Option RetrieveCursor) (limit : ℕ) : RetrieveQuery :=
  { scopeJson := identity.scopeJson, entityTypes := identity.entityTypes, text := identity.text
    entityIds := identity.entityIds, filters := identity.filters, order := identity.order
    fingerprint := codec.digest identity, after, limit }

/-- `parse_query`, once the parts are read. -/
def parseQuery (identity : QueryIdentity) (cursor : Option String) (limit : ℕ) :
    Except BackendError RetrieveQuery := do
  let after ← codec.parseCursor cursor identity.order (codec.digest identity)
  return codec.query identity after limit

/-- `BackendEngine::retrieve` on what the provider serves: the hits, and the cursor for
`meta.next_cursor`. -/
def retrieve (provider : RetrieveQuery → RetrievedPage) (identity : QueryIdentity)
    (cursor : Option String) (limit : ℕ) :
    Except BackendError (List RetrievedEntity × Option String) := do
  let query ← codec.parseQuery identity cursor limit
  return ((provider query).entities, (provider query).nextCursor.map codec.encode)

variable {codec}

/-- **A query takes its own cursors back**, if they name an entity. -/
theorem parseCursor_encode {cursor : RetrieveCursor} (h : codec.Keeps cursor)
    (htype : cursor.entityType ≠ "") (hid : cursor.entityId ≠ "") :
    codec.parseCursor (some (codec.encode cursor)) cursor.order cursor.queryFingerprint =
      .ok (some cursor) := by
  rw [Keeps] at h
  simp [parseCursor, h, htype, hid]

end QueryCodec

end Patchouli
