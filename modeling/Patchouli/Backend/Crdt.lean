import Patchouli.Provider

/-!
# CRDT documents

The first half of `conflict.rs`: the Automerge document kept for a mergeable field, and the value
type that is written into it and read back.

`AutoCommit::save` and `AutoCommit::load` are inverse to each other, so a document is the list of
the changes it holds, in the order they were applied. Of the libraries three functions remain
that are not fixed by that view, the fields of `Automerge`:

* `decode` — what `Change::from_bytes` reads from the bytes of a change;
* `hydrate` — the value a set of changes holds;
* `reconcile` — the changes a document holds after an actor brought it to a value.

They are total. A document the backend builds always holds a value, and a value that was just
hydrated is never stale.

## Main definitions

* `Automerge` — the library functions
* `Automerge.Lawful` — what the library guarantees about changes
* `CrdtJson` — `CrdtJson::from_json`, `update`, `into_json`
* `CrdtDocument` — `from_json`, `from_changes`, `change`, `merge`, `json`, `heads`, `changes`
-/

namespace Patchouli

open Json (Value)

/-! ### Values with text identities -/

/-- A text node: its content, and the Automerge object it was read from. -/
structure CrdtText where
  value : String
  object : Option String
  fromHeads : List String

namespace CrdtText

def new (value : String) : CrdtText := { value, object := none, fromHeads := [] }

def update (text : CrdtText) (value : String) : CrdtText := { text with value }

end CrdtText

inductive CrdtJson where
  | null
  | bool (b : Bool)
  | number (n : Json.Number)
  | text (t : CrdtText)
  | array (values : List CrdtJson)
  | object (fields : List (String × CrdtJson))

namespace CrdtJson

mutual

/-- `CrdtJson::from_json`. -/
def fromJson : Value → CrdtJson
  | .null => .null
  | .bool b => .bool b
  | .number n => .number n
  | .string s => .text (CrdtText.new s)
  | .array values => .array (fromValues values)
  | .object fields => .object (fromFields fields)

def fromValues : List Value → List CrdtJson
  | [] => []
  | v :: vs => fromJson v :: fromValues vs

def fromFields : List (String × Value) → List (String × CrdtJson)
  | [] => []
  | (k, v) :: fs => (k, fromJson v) :: fromFields fs

end

mutual

/-- `CrdtJson::update`: bring a value to `next`, keeping the text nodes both have. -/
def update : Value → CrdtJson → CrdtJson
  | .string next, .text current => .text (current.update next)
  | .array next, .array current => .array (updateValues next current)
  | .object next, .object current => .object (updateFields next current)
  | next, _ => fromJson next

/-- Element by element; the rest of `current` is cut off, the rest of `next` added. -/
def updateValues : List Value → List CrdtJson → List CrdtJson
  | [], _ => []
  | n :: ns, c :: cs => update n c :: updateValues ns cs
  | n :: ns, [] => fromJson n :: updateValues ns []

/-- Key by key; the keys of `current` that `next` lacks are dropped. -/
def updateFields : List (String × Value) → List (String × CrdtJson) → List (String × CrdtJson)
  | [], _ => []
  | (k, n) :: ns, current =>
    match current.lookup k with
    | some c => (k, update n c) :: updateFields ns current
    | none => (k, fromJson n) :: updateFields ns current

end

mutual

/-- `CrdtJson::into_json`. -/
def intoJson : CrdtJson → Value
  | .null => .null
  | .bool b => .bool b
  | .number n => .number n
  | .text t => .string t.value
  | .array values => .array (intoValues values)
  | .object fields => .object (intoFields fields)

def intoValues : List CrdtJson → List Value
  | [] => []
  | v :: vs => intoJson v :: intoValues vs

def intoFields : List (String × CrdtJson) → List (String × Value)
  | [] => []
  | (k, v) :: fs => (k, intoJson v) :: intoFields fs

end

end CrdtJson

/-! ### The library -/

/-- A change of a document; the provider stores the same record. -/
abbrev CrdtChange := StoredCrdtChange

/-- What `automerge` and `autosurgeon` compute. -/
structure Automerge where
  /-- `Change::from_bytes`, then `hash` and `deps`. -/
  decode : List UInt8 → Option (String × List String)
  /-- `hydrate`: the value under the document's `value` key. -/
  hydrate : List CrdtChange → CrdtJson
  /-- `reconcile`, run by an actor on a document. -/
  reconcile : String → List CrdtChange → CrdtJson → List CrdtChange

/-- The hashes no change names as its parent. -/
def changeHeads (changes : List CrdtChange) : List String :=
  (changes.filter fun c => !changes.any fun d => d.parents.contains c.hash).map (·.hash)

/-- The changes of `a`, then those of `b` that `a` lacks. -/
def mergeChanges (a b : List CrdtChange) : List CrdtChange := a ++ b.filter fun c => !a.contains c

/-- `apply_changes`: take changes whose parents are all applied, as long as there are any; the
rest stays queued. -/
def applyChanges : ℕ → List CrdtChange → List CrdtChange → List CrdtChange
  | 0, _, applied => applied
  | fuel + 1, pending, applied =>
    match pending.find? fun c => c.parents.all fun p => applied.any (·.hash == p) with
    | some c =>
      applyChanges fuel (pending.erase c) (if applied.contains c then applied else applied ++ [c])
    | none => applied

/-! ### Changes -/

/-- A change whose hash and parents are those in its bytes. -/
def Genuine (A : Automerge) (change : StoredCrdtChange) : Prop :=
  ∃ deps, A.decode change.bytes = some (change.hash, deps) ∧ ∀ p, p ∈ deps ↔ p ∈ change.parents

/-- What the CRDT library guarantees: a hash belongs to one byte string, and the changes it makes
are what they say. -/
structure Automerge.Lawful (A : Automerge) : Prop where
  hash_injective : ∀ {bytes bytes' : List UInt8} {hash : String} {deps deps' : List String},
    A.decode bytes = some (hash, deps) → A.decode bytes' = some (hash, deps') → bytes = bytes'
  reconcile_genuine : ∀ {actor : String} {changes : List CrdtChange} {value : CrdtJson},
    (∀ c ∈ changes, Genuine A c) → ∀ c ∈ A.reconcile actor changes value, Genuine A c

/-! ### Documents -/

inductive ConflictError where
  | rejected
  | emptyMerge
  | storedChange (message : String)
  | frontierMismatch
  deriving DecidableEq

namespace ConflictError

/-- The `Display` text. -/
def message : ConflictError → String
  | rejected => "concurrent versions are rejected by the selected conflict strategy"
  | emptyMerge => "at least one Automerge document is required"
  | storedChange message => "invalid stored Automerge change: " ++ message
  | frontierMismatch => "stored Automerge frontier does not match the reconstructed document"

end ConflictError

structure CrdtDocument where
  changes : List CrdtChange
  deriving DecidableEq

namespace CrdtDocument

variable (A : Automerge)

/-- `CrdtDocument::from_json`, by a fresh actor. -/
def fromJson (actor : String) (value : Value) : CrdtDocument :=
  ⟨A.reconcile actor [] (CrdtJson.fromJson value)⟩

/-- One step of `from_changes`: the stored hash and edges must be those of the bytes. -/
def checkChange (change : CrdtChange) : Except ConflictError CrdtChange :=
  match A.decode change.bytes with
  | none => .error (.storedChange "the bytes are not a change")
  | some (hash, deps) =>
    if hash ≠ change.hash ∨ Table.sorted deps ≠ Table.sorted change.parents then
      .error (.storedChange "change hash or dependency edges do not match its bytes")
    else .ok { hash, parents := deps, bytes := change.bytes }

/-- `CrdtDocument::from_changes`. -/
def fromChanges (changes : List CrdtChange) (expectedHeads : List String) :
    Except ConflictError CrdtDocument := do
  let decoded ← changes.mapM (checkChange A)
  let applied := applyChanges decoded.length decoded []
  if Table.sorted (changeHeads applied) ≠ Table.sorted expectedHeads then
    .error .frontierMismatch
  else .ok ⟨applied⟩

/-- `CrdtDocument::change`, by a fresh actor. -/
def change (actor : String) (document : CrdtDocument) (value : Value) : CrdtDocument :=
  ⟨A.reconcile actor document.changes (CrdtJson.update value (A.hydrate document.changes))⟩

/-- `CrdtDocument::merge`. -/
def merge : List CrdtDocument → Except ConflictError CrdtDocument
  | [] => .error .emptyMerge
  | first :: rest => .ok ⟨rest.foldl (fun merged d => mergeChanges merged d.changes) first.changes⟩

/-- `CrdtDocument::json`. -/
def json (document : CrdtDocument) : Value := (A.hydrate document.changes).intoJson

/-- `CrdtDocument::heads`. -/
def heads (document : CrdtDocument) : List String := changeHeads document.changes

end CrdtDocument

end Patchouli
