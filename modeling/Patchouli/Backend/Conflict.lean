import Patchouli.Backend.Crdt

/-!
# Conflict resolution

The second half of `conflict.rs`: how concurrent candidates of one entity become the variants it
keeps, and the two places of `engine.rs` that resolve them, an update and a publication.

`serde_json::to_string` is the parameter `toText`: the program compares and orders the texts of
group values, and relies on different values having different texts.

## Main definitions

* `mergeCandidates` — rule by rule, group by group, and then `collapseIdenticalVariants`
* `resolvePreparedConflict` — by the strategy of the plan
* `resolveHeads` — with the tombstones among the heads, at a `ResolutionSite`
-/

namespace Patchouli

open Json (Value)

structure ConflictCandidate where
  value : Value
  crdtFields : List (String × CrdtDocument)
  sourceVersion : Option String
  deriving DecidableEq

structure ConflictResolution where
  variants : List ConflictCandidate
  deriving DecidableEq

/-! ### Groups -/

/-- `reject_if_required`. -/
def rejectIfRequired : ConflictFallback → Except ConflictError Unit
  | .mvcc => .ok ()
  | .reject => .error .rejected

/-- `group_values`: the discriminators of a mergeable field. -/
def groupValues (value : Value) (rule : ConflictMergeRule) : Option (List Value) :=
  rule.groupBy.mapM value.pointer

mutual

/-- `canonical_json`. -/
def canonicalJson (toText : Value → String) : Value → String
  | .object fields => toText (.object (canonicalFields toText fields))
  | .array values => toText (.array (canonicalValues toText values))
  | .null => toText .null
  | .bool b => toText (.bool b)
  | .number n => toText (.number n)
  | .string s => toText (.string s)

def canonicalValues (toText : Value → String) : List Value → List Value
  | [] => []
  | v :: vs => .string (canonicalJson toText v) :: canonicalValues toText vs

def canonicalFields (toText : Value → String) : List (String × Value) → List (String × Value)
  | [] => []
  | (k, v) :: fs => (k, .string (canonicalJson toText v)) :: canonicalFields toText fs

end

section Merge

variable (A : Automerge) (toText : Value → String)

/-- The group of a variant under a rule; `none` where the field, its CRDT state or a
discriminator is missing. -/
def groupKey (rule : ConflictMergeRule) (candidate : ConflictCandidate) : Option (List String) :=
  match candidate.value.pointer rule.path with
  | none => none
  | some field =>
    if (candidate.crdtFields.lookup rule.path).isNone then none
    else (groupValues field rule).map fun group => group.map (canonicalJson toText)

/-- The positions of the variants in one group. -/
def groupMembers (keys : List (Option (List String))) (key : List String) : List ℕ :=
  (keys.zipIdx.filter fun entry => entry.1 = some key).map (·.2)

/-- The groups of a rule, in the order of their keys. -/
def groupVariants (plan : ConflictPlan) (rule : ConflictMergeRule)
    (variants : List ConflictCandidate) : Except ConflictError (List (List ℕ)) := do
  let keys := variants.map (groupKey toText rule)
  if keys.contains none then rejectIfRequired plan.otherwise
  return ((keys.filterMap id).dedup.insertionSort (· ≤ ·)).map (groupMembers keys)

/-- A variant whose field took part in a merge. -/
def ConflictCandidate.withMerged (rule : ConflictMergeRule) (document : CrdtDocument)
    (candidate : ConflictCandidate) : ConflictCandidate :=
  { value := candidate.value.setPointer rule.path (document.json A)
    crdtFields := Table.insertEntry rule.path document candidate.crdtFields
    sourceVersion := none }

/-- One group of a rule. A group of one is left to the fallback. -/
def mergeGroup (plan : ConflictPlan) (rule : ConflictMergeRule) (variants : List ConflictCandidate)
    (indexes : List ℕ) : Except ConflictError (List ConflictCandidate) :=
  if indexes.length < 2 then do
    rejectIfRequired plan.otherwise
    return variants
  else do
    let branches := indexes.filterMap fun i =>
      (variants[i]?).bind fun candidate => candidate.crdtFields.lookup rule.path
    let document ← CrdtDocument.merge branches
    return variants.mapIdx fun i candidate =>
      if i ∈ indexes then candidate.withMerged A rule document else candidate

/-- One turn of the loop over the rules. -/
def mergeRule (plan : ConflictPlan) (variants : List ConflictCandidate)
    (rule : ConflictMergeRule) : Except ConflictError (List ConflictCandidate) := do
  let groups ← groupVariants toText plan rule variants
  groups.foldlM (mergeGroup A plan rule) variants

/-- The fields of a variant that turned out equal to one already kept. -/
def mergeFields (kept : List (String × CrdtDocument)) (fields : List (String × CrdtDocument)) :
    Except ConflictError (List (String × CrdtDocument)) :=
  fields.foldlM (fun kept (path, document) =>
    match kept.lookup path with
    | some current => do
      let merged ← CrdtDocument.merge [current, document]
      return Table.insertEntry path merged kept
    | none => return Table.insertEntry path document kept) kept

/-- Add a variant to the variants kept so far. -/
def addVariant : List ConflictCandidate → ConflictCandidate →
    Except ConflictError (List ConflictCandidate)
  | [], variant => .ok [variant]
  | existing :: rest, variant =>
    if existing.value = variant.value then do
      let crdtFields ← mergeFields existing.crdtFields variant.crdtFields
      return { existing with crdtFields, sourceVersion := none } :: rest
    else do
      let rest ← addVariant rest variant
      return existing :: rest

/-- `collapse_identical_variants`. -/
def collapseIdenticalVariants (variants : List ConflictCandidate) :
    Except ConflictError (List ConflictCandidate) :=
  variants.foldlM addVariant []

/-- `merge_candidates`. -/
def mergeCandidates (plan : ConflictPlan) (candidates : List ConflictCandidate) :
    Except ConflictError ConflictResolution := do
  let variants ← plan.merge.foldlM (mergeRule A toText plan) candidates
  let variants ← collapseIdenticalVariants variants
  return { variants }

/-- `resolve_prepared_conflict`. -/
def resolvePreparedConflict (plan : ConflictPlan) (candidates : List ConflictCandidate) :
    Except ConflictError ConflictResolution :=
  if candidates.length ≤ 1 then .ok { variants := candidates }
  else
    match plan.strategy with
    | .reject => .error .rejected
    | .mvcc => .ok { variants := candidates }
    | .merge => mergeCandidates A toText plan candidates

end Merge

/-! ### Resolution in the engine -/

/-- `conflict_backend_error`. -/
def conflictBackendError (error : ConflictError) : BackendError :=
  match error with
  | .rejected => BackendError.new .versionConflict error.message
  | _ => BackendError.new .overloaded error.message

/-- `with_current_versions`. -/
def withCurrentVersions (error : BackendError) (currentVersions : List String) : BackendError :=
  if error.reason = .versionConflict ∧ error.currentVersions = [] then
    { error with currentVersions }
  else error

/-- `entity_conflict_error`. -/
def entityConflictError (conflict : WorkUnitConflict) (currentVersions : List String) :
    BackendError :=
  BackendError.entityConflicts
    [{ entityRef := ⟨conflict.key.entityType, conflict.key.entityId⟩, currentVersions }]

/-- Where concurrent heads are resolved: an update that read `headVersions`, or the publication
of a work unit that met a conflict. -/
inductive ResolutionSite where
  | update (headVersions : List String)
  | publication (conflict : WorkUnitConflict)

namespace ResolutionSite

/-- The heads a refusal reports. -/
def currentHeads : ResolutionSite → List String
  | update headVersions => headVersions
  | publication conflict => conflict.currentHeads

/-- The refusal of a site. -/
def refusal : ResolutionSite → BackendError
  | update headVersions => BackendError.headsMoved headVersions
  | publication conflict => entityConflictError conflict conflict.currentHeads

end ResolutionSite

/-- Resolve the active candidates next to the tombstones `deleted`, as `update` and
`resolve_publication_conflict` do. -/
def resolveHeads (A : Automerge) (toText : Value → String) (site : ResolutionSite)
    (plan : ConflictPlan) (deleted : List String) (candidates : List ConflictCandidate) :
    Except BackendError ConflictResolution :=
  if deleted ≠ [] ∧ plan.otherwise = .reject then .error site.refusal
  else
    match resolvePreparedConflict A toText plan candidates with
    | .ok resolution => .ok resolution
    | .error error => .error (withCurrentVersions (conflictBackendError error) site.currentHeads)

end Patchouli
