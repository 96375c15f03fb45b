import Patchouli.Sqlite.Operation
import Patchouli.Backend.Engine

/-!
# The transport of a remote provider

An engine can use a provider that runs on another node. `RemoteProvider` sends a call as an HTTP
request, the authority executes it on its own provider and answers with a status and a JSON body.
An error crosses the wire twice, once as the status and once in the body, and the two agree: what is
delivered has the reason the authority's provider gave (`receive_respond`).

What is not delivered has a reason too. A request that timed out is reported as `deadlineExceeded`,
the reason the authority gives for a commit it refused because of its deadline. The two are told
apart nowhere.

## Main definitions

* `respond`, `receive` — `provider_call` and `send`
* `transportError` — the reason of a failure on the way

## Main results

* `receive_respond` — what is delivered has its reason
-/

namespace Patchouli

/-! ### Status codes -/

/-- `status_for_reason`. -/
def statusForReason : ProviderErrorReason → ℕ
  | .unauthenticated => 401
  | .deadlineExceeded => 408
  | .unavailable => 503
  | .internal => 500

/-- `reason_for_status`. -/
def reasonForStatus (status : ℕ) : ProviderErrorReason :=
  if status = 401 then .unauthenticated
  else if status = 408 ∨ status = 504 then .deadlineExceeded
  else if status = 502 ∨ status = 503 then .unavailable
  else .internal

theorem reasonForStatus_statusForReason (reason : ProviderErrorReason) :
    reasonForStatus (statusForReason reason) = reason := by
  cases reason <;> rfl

/-! ### Calls and replies -/

/-- `ProviderCall::operation`. -/
def Operation.operation : {α : Type} → Operation α → String
  | _, .readEntity .. => "read entity"
  | _, .readChanges _ => "read changes"
  | _, .retrieveEntities .. => "retrieve entities"
  | _, .commitEntity _ => "commit entity"
  | _, .readIdempotency .. => "read idempotency"
  | _, .readIdempotencyInWorkUnit .. => "read work-unit idempotency"
  | _, .commitEntityIdempotent .. => "commit idempotent entity"
  | _, .readEntityInWorkUnit .. => "read entity in work unit"
  | _, .retrieveEntitiesInWorkUnit .. => "retrieve entities in work unit"
  | _, .commitEntityInWorkUnit _ => "commit entity in work unit"
  | _, .publishWorkUnit _ => "publish work unit"

structure RemoteError where
  reason : ProviderErrorReason
  error : String

/-- What the body of a response decodes to. -/
inductive ResponseBody (α : Type) where
  | reply (value : α)
  | error (error : RemoteError)
  | unreadable

structure Response (α : Type) where
  status : ℕ
  body : ResponseBody α

variable {α : Type}

/-- `provider_call`, for an authenticated request that was executed. -/
def respond : Except ProviderError α → Response α
  | .ok value => { status := 200, body := .reply value }
  | .error error =>
    { status := statusForReason error.reason, body := .error ⟨error.reason, error.message⟩ }

/-- The text around every failure of a call. -/
def failureAt (operation endpoint detail : String) : String :=
  operation ++ " at " ++ endpoint ++ " failed: " ++ detail

/-- `send`, once there is a response. The reason in the body counts where the status has none. -/
def receive (operation endpoint : String) (response : Response α) : Except ProviderError α :=
  if 200 ≤ response.status ∧ response.status < 300 then
    match response.body with
    | .reply value => .ok value
    | _ => .error (ProviderError.new
        (operation ++ " at " ++ endpoint ++ " returned an invalid response"))
  else
    let fallbackReason := reasonForStatus response.status
    let error := match response.body with
      | .error error => error
      | _ => ⟨fallbackReason, "remote provider returned HTTP " ++ toString response.status⟩
    let reason := match fallbackReason with
      | .internal => error.reason
      | reason => reason
    .error ⟨reason, failureAt operation endpoint error.error⟩

/-- How a request can fail on the way. -/
inductive TransportFailure where
  | timeout
  | connect
  | request
  | other
  deriving DecidableEq

/-- `transport_error`. -/
def transportError (operation endpoint : String) (failure : TransportFailure) (detail : String) :
    ProviderError :=
  { reason := match failure with
      | .timeout => .deadlineExceeded
      | .connect | .request => .unavailable
      | .other => .internal
    message := failureAt operation endpoint detail }

/-- **What is delivered has its reason**, and a success is delivered as it is. -/
theorem receive_respond (operation endpoint : String) (outcome : Except ProviderError α) :
    receive operation endpoint (respond outcome) =
      outcome.mapError fun error =>
        ⟨error.reason, failureAt operation endpoint error.message⟩ := by
  cases outcome with
  | ok value => rfl
  | error error =>
    have hstatus : ¬ (200 ≤ statusForReason error.reason ∧ statusForReason error.reason < 300) := by
      cases error.reason <;> decide
    have hreason := reasonForStatus_statusForReason error.reason
    simp only [receive, respond, if_neg hstatus, hreason, Except.mapError]
    cases error.reason <;> rfl

/-! ### Errors that are not about deadlines

Between its provider calls a mutation fails for its own reasons. None of them is a deadline. -/

/-- A computation of the engine that does not fail by a deadline. -/
abbrev Timely (x : Except BackendError α) : Prop :=
  x.Meets (fun error => error.reason ≠ .deadlineExceeded) fun _ => True

theorem snapshotVersion_timely (snapshot : EntitySnapshot) (name : String) :
    Timely (snapshotVersion snapshot name) := by
  unfold snapshotVersion
  split
  · trivial
  · exact fun h => nomatch h

theorem storedValue_timely (stored : StoredEntityVersion) : Timely (storedValue stored) := by
  unfold storedValue
  split
  · trivial
  · exact fun h => nomatch h

theorem conflictBackendError_timely (error : ConflictError) :
    (conflictBackendError error).reason ≠ .deadlineExceeded := by
  cases error <;> exact fun h => nomatch h

theorem withCurrentVersions_timely {error : BackendError} (h : error.reason ≠ .deadlineExceeded)
    (currentVersions : List String) :
    (withCurrentVersions error currentVersions).reason ≠ .deadlineExceeded := by
  unfold withCurrentVersions
  split
  · exact h
  · exact h

theorem storedCandidate_timely (A : Automerge) (version : StoredEntityVersion) :
    Timely (storedCandidate A version) := by
  have hload : ∀ field, Timely (loadCrdtDocument A field) := by
    intro field
    unfold loadCrdtDocument
    cases CrdtDocument.fromChanges A field.changes field.heads with
    | ok document => trivial
    | error error => exact conflictBackendError_timely error
  refine (storedValue_timely version).bind fun value _ =>
    Except.Meets.bind (P := fun _ => True) (Except.Meets.foldlM trivial fun fields _ field _ =>
      (hload field).bind fun document _ => ?_) fun _ _ => trivial
  split
  · exact fun h => nomatch h
  · split
    · exact fun h => nomatch h
    · trivial

theorem Offer.addAll_timely (A : Automerge) (offer : Offer) (versions : List StoredEntityVersion) :
    Timely (offer.addAll A versions) := by
  refine Except.Meets.foldlM trivial fun offer _ version _ => ?_
  unfold Offer.add
  split
  · exact (storedCandidate_timely A version).bind fun _ _ => trivial
  · trivial

theorem publicationOffer_timely (A : Automerge) (conflict : WorkUnitConflict) :
    Timely (publicationOffer A conflict) := by
  have hinsert : ∀ heads snapshot, Timely (insertHeads heads snapshot) := fun heads snapshot =>
    Except.Meets.foldlM trivial fun heads _ name _ =>
      (snapshotVersion_timely snapshot name).bind fun _ _ => trivial
  refine (hinsert _ _).bind fun staged _ => Except.Meets.bind (P := fun _ => True) ?_
    fun heads _ => Offer.addAll_timely A _ _
  cases conflict.current with
  | some current => exact hinsert staged current
  | none => trivial

variable {A : Automerge} {toText : Json.Value → String} {config : BackendConfig}

theorem resolveHeads_timely (site : ResolutionSite) (plan : ConflictPlan) (deleted : List String)
    (candidates : List ConflictCandidate) :
    Timely (resolveHeads A toText site plan deleted candidates) := by
  unfold resolveHeads
  split
  · cases site <;> exact fun h => nomatch h
  · split
    · trivial
    · exact withCurrentVersions_timely (conflictBackendError_timely _) _

theorem validateNewVariants_timely (entityType : String) (variants : List ConflictCandidate) :
    Timely (validateNewVariants config entityType variants) := by
  induction variants with
  | nil => trivial
  | cons variant rest ih =>
    unfold validateNewVariants
    split
    · exact ih
    · split
      · exact ih
      · exact fun h => nomatch h

theorem resolvePublicationConflict_timely (fresh : Draw → String) (recordedAt i : ℕ)
    (conflict : WorkUnitConflict) :
    Timely (resolvePublicationConflict A toText config fresh recordedAt i conflict) := by
  unfold resolvePublicationConflict
  dsimp only
  split
  · exact fun h => nomatch h
  · refine (publicationOffer_timely A conflict).bind fun offer _ =>
      (resolveHeads_timely _ _ _ _).bind fun resolved _ =>
        (validateNewVariants_timely _ _).bind fun _ _ => ?_
    split
    · exact fun h => nomatch h
    · trivial

/-- **The resolution of publication conflicts does not fail by a deadline.** -/
theorem resolvePublicationConflicts_timely (fresh : Draw → String) (recordedAt : ℕ → ℕ)
    (conflicts : List WorkUnitConflict) :
    Timely (resolvePublicationConflicts A toText config fresh recordedAt conflicts) := by
  have heach : ∀ i, Timely (resolveEach A toText config fresh recordedAt i conflicts) := by
    induction conflicts with
    | nil => exact fun _ => trivial
    | cons conflict rest ih =>
      intro i
      unfold resolveEach
      split
      · exact (ih (i + 1)).bind fun _ _ => trivial
      · rename_i error heq
        split
        · exact (ih (i + 1)).bind fun _ _ => trivial
        · exact (resolvePublicationConflict_timely fresh _ i conflict).of_error heq
  refine (heach 0).bind fun r _ => ?_
  dsimp only
  split
  · trivial
  · exact fun h => nomatch h

theorem mapWorkUnitOutcome_timely (outcome : WorkUnitCommitOutcome) :
    Timely (mapWorkUnitOutcome outcome) := by
  cases outcome
  case staged => trivial
  case published => trivial
  all_goals exact fun h => nomatch h

theorem rereadResult_timely (mutation : Mutation) (entityRef : EntityRef) (result : MutationResult)
    (snapshot : Option EntitySnapshot) :
    Timely (rereadResult mutation entityRef result snapshot) := by
  have hactive : ∀ snapshot, Timely (activeMutationResult entityRef snapshot) := by
    intro snapshot
    refine Except.Meets.bind (P := fun _ => True) ?_ fun head _ => ?_
    · exact (Except.Meets.mapM fun name _ => snapshotVersion_timely snapshot name).bind
        fun _ _ => trivial
    · cases head with
      | none => exact fun h => nomatch h
      | some stored => exact (storedValue_timely stored).bind fun _ _ => trivial
  unfold rereadResult
  split
  · trivial
  · exact hactive _
  · trivial

end Patchouli
