import Patchouli.Backend.Engine
import Patchouli.Sqlite.Commit
import Patchouli.Sqlite.Retrieve

/-!
# Runs

Any number of engines over one SQLite provider. A mutation in flight is a process; its next step is
one provider call, which is one transaction after a sweep, and everything the engine computes from
the reply. Processes step in any order, with any readings of the clock; a process that never steps
again has crashed. Reads, retrievals, change reads and restarts happen in between.

The execution locks of an engine are left out: they only forbid some of these interleavings.

## Main definitions

* `Process`, `Stage` — a mutation in flight, and the call it makes next
* `World.step` — one event
* `Reachable` — the worlds that runs of allowed events reach
-/

namespace Patchouli

/-- What the engines share: the libraries, the configuration, the random draws of each process,
and how the scope is found in the text of a control key. -/
structure Environment where
  automerge : Automerge
  toText : Json.Value → String
  config : BackendConfig
  search : Search
  fresh : ℕ → Draw → String
  actors : ℕ → String → String
  scopeOfKey : String → String

/-- A selection as the controller makes it: its publication key is a `ControlKey` of its scope. -/
def PolicySelection.KeyInScope (scopeOfKey : String → String) (selection : PolicySelection) :
    Prop :=
  ∀ key ∈ selection.publicationKey, scopeOfKey key = selection.scope

instance (scopeOfKey : String → String) (selection : PolicySelection) :
    Decidable (selection.KeyInScope scopeOfKey) :=
  inferInstanceAs (Decidable (∀ key ∈ selection.publicationKey, scopeOfKey key = selection.scope))

/-! ### Processes -/

/-- How a process came to its answer. -/
inductive Route where
  | refused
  | replayed
  | sent (prepared : Prepared) (resolutions : List WorkUnitResolution)

/-- The call a process makes next, or its answer. -/
inductive Stage where
  | identify (identity : String)
  | read
  | commit (prepared : Prepared)
  | publish (prepared : Prepared) (resolutions : List WorkUnitResolution)
  | reread (prepared : Prepared) (resolutions : List WorkUnitResolution)
  | answered (outcome : Except BackendError MutationResult) (route : Route)

structure Process where
  request : Request
  readings : Readings
  admitted : Admitted
  stage : Stage

namespace Process

variable (env : Environment) (i : ℕ) (p : Process)

/-- The entity of the mutation. -/
def entityRef : EntityRef := p.request.mutation.target (env.fresh i)

def key : EntityKey := entityKey p.request.selection (p.entityRef env i)

def preparation : Preparation :=
  { request := p.request, readings := p.readings, identity := p.admitted.identity
    fresh := env.fresh i, actors := env.actors i }

/-! ### Replies -/

def refuse (error : BackendError) : Process :=
  { p with stage := .answered (.error error) .refused }

/-- The answer of a mutation that was sent. -/
def answer (prepared : Prepared) (resolutions : List WorkUnitResolution)
    (outcome : Except BackendError MutationResult) : Process :=
  { p with stage := .answered outcome (.sent prepared resolutions) }

/-- A mutation that is not a replay validates its value and reads its entity. -/
def beginRead : Process :=
  match validateMutation env.config p.request.mutation with
  | .ok () => { p with stage := .read }
  | .error error => p.refuse error

/-- After the idempotency read. -/
def identified (outcome : Except ProviderError IdempotencyReadOutcome) : Process :=
  match outcome with
  | .error error => p.refuse (providerBackendError error)
  | .ok .missing => p.beginRead env
  | .ok (.replayed result) => { p with stage := .answered (.ok result) .replayed }
  | .ok .conflict => p.refuse idempotencyConflict
  | .ok .unavailable => p.refuse unavailableFrontier

/-- After the read of the entity. -/
def readBack (outcome : Except BackendError (Option EntitySnapshot)) : Process :=
  match outcome with
  | .error error => p.refuse error
  | .ok snapshot =>
    match prepare env.automerge env.toText env.config (p.preparation env i) snapshot with
    | .error error => p.refuse error
    | .ok prepared => { p with stage := .commit prepared }

/-- After an immediate commit. -/
def committed (prepared : Prepared) (outcome : Except ProviderError EntityCommitOutcome) :
    Process :=
  match outcome with
  | .error error => p.answer prepared [] (.error (providerBackendError error))
  | .ok .committed => p.answer prepared [] (.ok prepared.result)
  | .ok (.conflict currentHeads) =>
    p.answer prepared [] (.error (BackendError.headsMoved currentHeads))

/-- After an immediate commit with an idempotency record. -/
def committedIdempotent (prepared : Prepared)
    (outcome : Except ProviderError IdempotentCommitOutcome) : Process :=
  match outcome with
  | .error error => p.answer prepared [] (.error (providerBackendError error))
  | .ok .committed => p.answer prepared [] (.ok prepared.result)
  | .ok (.entityConflict currentHeads) =>
    p.answer prepared [] (.error (BackendError.headsMoved currentHeads))
  | .ok (.replayed result) => { p with stage := .answered (.ok result) .replayed }
  | .ok .idempotencyConflict => p.answer prepared [] (.error idempotencyConflict)

/-- After a commit in a work unit. -/
def committedInWorkUnit (prepared : Prepared)
    (outcome : Except ProviderError WorkUnitCommitOutcome) : Process :=
  match outcome with
  | .error error => p.answer prepared [] (.error (providerBackendError error))
  | .ok (.publicationConflict conflicts) =>
    match resolvePublicationConflicts env.automerge env.toText env.config (env.fresh i)
      p.readings.resolved conflicts with
    | .error error => p.answer prepared [] (.error error)
    | .ok resolutions => { p with stage := .publish prepared resolutions }
  | .ok outcome => p.answer prepared [] ((mapWorkUnitOutcome outcome).map fun _ => prepared.result)

/-- After a publication. -/
def published (prepared : Prepared) (resolutions : List WorkUnitResolution)
    (outcome : Except ProviderError WorkUnitCommitOutcome) : Process :=
  match outcome with
  | .error error => p.answer prepared resolutions (.error (providerBackendError error))
  | .ok .published => { p with stage := .reread prepared resolutions }
  | .ok outcome =>
    p.answer prepared resolutions ((mapWorkUnitOutcome outcome).map fun _ => prepared.result)

/-- After the read that follows a publication. -/
def rereadBack (prepared : Prepared) (resolutions : List WorkUnitResolution)
    (outcome : Except ProviderError (ConsistentRead (Option EntitySnapshot))) : Process :=
  p.answer prepared resolutions (do
    let read ← outcome.mapError providerBackendError
    let snapshot ← consistentValue read
    rereadResult p.request.mutation (p.entityRef env i) prepared.result snapshot)

/-! ### Calls -/

/-- The commit of a mutation in its work unit. -/
def workUnitCommit (selected : SelectedWorkUnit) (prepared : Prepared) : WorkUnitCommit :=
  { workUnit := selected.workUnit
    entity := prepared.commit
    conflictPolicyJson := p.request.selection.conflict
    idempotency := prepared.record
    close := selected.close }

def workUnitPublish (selected : SelectedWorkUnit) (resolutions : List WorkUnitResolution) :
    WorkUnitPublish :=
  { workUnit := selected.workUnit, resolutions, recordedAtUnixMs := p.readings.published }

/-- The provider call of `prepare_idempotency`. -/
def callIdentify (identity : String) (clock : Clock) (db : Db) : Reply IdempotencyReadOutcome :=
  match p.admitted.workUnit with
  | some selected =>
    readIdempotencyInWorkUnit db clock selected.workUnit p.admitted.consistency identity
      p.request.mutation p.readings.identified (!selected.close)
  | none =>
    readIdempotency db clock p.request.selection.scope p.admitted.consistency identity
      p.request.mutation p.readings.identified

/-- One step: the call of the stage, and the engine up to its next call. -/
def step (clock : Clock) (db : Db) : Process × Db :=
  match p.stage with
  | .identify identity =>
    let reply := p.callIdentify identity clock db
    (p.identified env reply.outcome, reply.db)
  | .read =>
    match p.admitted.workUnit with
    | some selected =>
      let reply := readEntityInWorkUnit db clock selected.workUnit (p.key env i)
        p.admitted.consistency
      (p.readBack env i ((reply.outcome.mapError providerBackendError).bind workUnitValue),
        reply.db)
    | none =>
      let reply := readEntity db clock (p.key env i) p.admitted.consistency
      (p.readBack env i ((reply.outcome.mapError providerBackendError).bind consistentValue),
        reply.db)
  | .commit prepared =>
    match p.admitted.workUnit, prepared.record with
    | some selected, _ =>
      let reply := commitEntityInWorkUnit db clock (p.workUnitCommit selected prepared)
      (p.committedInWorkUnit env i prepared reply.outcome, reply.db)
    | none, some record =>
      let reply := commitEntityIdempotent db clock prepared.commit record p.readings.accepted
      (p.committedIdempotent prepared reply.outcome, reply.db)
    | none, none =>
      let reply := commitEntity db clock prepared.commit
      (p.committed prepared reply.outcome, reply.db)
  | .publish prepared resolutions =>
    match p.admitted.workUnit with
    | some selected =>
      let reply := publishWorkUnit db clock (p.workUnitPublish selected resolutions)
      (p.published prepared resolutions reply.outcome, reply.db)
    | none => (p, db)
  | .reread prepared resolutions =>
    let reply := readEntity db clock prepared.commit.key p.admitted.consistency
    (p.rereadBack env i prepared resolutions reply.outcome, reply.db)
  | .answered _ _ => (p, db)

end Process

/-- A request as it arrives: admitted, it becomes a process; refused, it never calls the
provider. -/
def Request.arrive (env : Environment) (request : Request) (readings : Readings) : Process :=
  let unadmitted : Admitted :=
    { workUnit := none
      consistency := ⟨[], [], [], request.deadlineUnixMs⟩
      identity := none }
  match admitRequest request readings with
  | .error error => Process.refuse ⟨request, readings, unadmitted, .read⟩ error
  | .ok admitted =>
    match admitted.identity with
    | some identity => ⟨request, readings, admitted, .identify identity⟩
    | none => Process.beginRead env ⟨request, readings, admitted, .read⟩

/-! ### Worlds -/

structure World where
  db : Db
  processes : List Process

/-- What can happen: a mutation arrives, a process steps, somebody reads, retrieves or follows
the changes, the provider starts or is checkpointed. The two statements of a prune are transactions
of their own, and a crash may fall between them. -/
inductive Event where
  | arrive (request : Request) (readings : Readings)
  | advance (i : ℕ) (clock : Clock)
  | read (selection : PolicySelection) (entityRef : EntityRef) (deadlineUnixMs : Option ℕ)
      (now : ℕ) (clock : Clock)
  | retrieve (selections : List PolicySelection) (query : RetrieveQuery)
      (deadlineUnixMs : Option ℕ) (now : ℕ) (clock : Clock)
  | readChanges (query : ChangeQuery)
  | crashInPrune (query : ChangeQuery)
  | sweep (now : ℕ)

namespace World

/-- A new provider. -/
def start : World := ⟨Db.empty, []⟩

variable (env : Environment) (w : World)

/-- The database after `BackendEngine::read`. -/
def afterRead (selection : PolicySelection) (entityRef : EntityRef) (deadline : Option ℕ)
    (now : ℕ) (clock : Clock) : Db :=
  if selection.KeyInScope env.scopeOfKey then
    match selectedWorkUnit selection deadline now,
        readConsistency [selection] deadline false with
    | .ok (some selected), .ok consistency =>
      (readEntityInWorkUnit w.db clock selected.workUnit (entityKey selection entityRef)
        consistency).db
    | .ok none, .ok consistency =>
      (readEntity w.db clock (entityKey selection entityRef) consistency).db
    | _, _ => w.db
  else w.db

/-- The database after `BackendEngine::retrieve`. All selections of a retrieval have the scope of
its query. -/
def afterRetrieve (selections : List PolicySelection) (query : RetrieveQuery)
    (deadline : Option ℕ) (now : ℕ) (clock : Clock) : Db :=
  if ∀ selection ∈ selections, selection.scope = query.scopeJson ∧
      selection.KeyInScope env.scopeOfKey then
    match selectedRetrievalWorkUnit selections deadline now,
        readConsistency selections deadline false with
    | .ok (some selected), .ok consistency =>
      (retrieveEntitiesInWorkUnit env.search w.db clock selected.workUnit query consistency).db
    | .ok none, .ok consistency => (retrieveEntities env.search w.db clock query consistency).db
    | _, _ => w.db
  else w.db

/-- One event. -/
def step : Event → World
  | .arrive request readings =>
    if request.selection.KeyInScope env.scopeOfKey then
      { w with processes := w.processes ++ [request.arrive env readings] }
    else w
  | .advance i clock =>
    match w.processes[i]? with
    | some p =>
      let (p', db) := p.step env i clock w.db
      { db, processes := w.processes.set i p' }
    | none => w
  | .read selection entityRef deadline now clock =>
    { w with db := w.afterRead env selection entityRef deadline now clock }
  | .retrieve selections query deadline now clock =>
    { w with db := w.afterRetrieve env selections query deadline now clock }
  | .readChanges query => { w with db := (Patchouli.readChanges w.db query).db }
  | .crashInPrune query => { w with db := w.db.notePrune query }
  | .sweep now => { w with db := (w.db.sweepExpiredWorkUnits now).db }

end World

/-- The worlds reached by runs whose events all meet a condition. -/
inductive ReachableWhen (env : Environment) (allowed : World → Event → Prop) : World → Prop
  | start : ReachableWhen env allowed World.start
  | step {w : World} (event : Event) (h : ReachableWhen env allowed w) (hallowed : allowed w event) :
      ReachableWhen env allowed (w.step env event)

/-- The worlds reached by any run. -/
abbrev Reachable (env : Environment) : World → Prop := ReachableWhen env fun _ _ => True

theorem ReachableWhen.reachable {env : Environment} {allowed : World → Event → Prop} {w : World}
    (h : ReachableWhen env allowed w) : Reachable env w := by
  induction h with
  | start => exact .start
  | step event _ _ ih => exact .step event ih trivial

/-! ### A small environment

Notes without a schema, and no merge rules. Every draw of every process has its own name. -/

/-- What is drawn, in numbers. -/
def Draw.code : Draw → ℕ × ℕ × ℕ
  | .entityId => (1, 0, 0)
  | .version variant => (2, variant, 0)
  | .resolved conflict variant => (3, conflict, variant)
  | .resolvedToken conflict => (4, conflict, 0)

theorem Draw.code_injective : Function.Injective Draw.code := by
  intro d d' h
  cases d <;> cases d' <;> simp_all [Draw.code]

/-- The name of a draw: how often each letter occurs says which it is. -/
def drawnName (i : ℕ) (draw : Draw) : String :=
  String.ofList (List.replicate i 'a' ++ List.replicate draw.code.1 'b' ++
    List.replicate draw.code.2.1 'c' ++ List.replicate draw.code.2.2 'd')

theorem drawnName_injective {i i' : ℕ} {draw draw' : Draw}
    (h : drawnName i draw = drawnName i' draw') : i = i' ∧ draw = draw' := by
  have hletters := congrArg String.toList h
  simp only [drawnName, String.toList_ofList] at hletters
  have hcount := fun letter : Char => congrArg (List.count letter) hletters
  have ha := hcount 'a'
  have hb := hcount 'b'
  have hc := hcount 'c'
  have hd := hcount 'd'
  simp only [List.count_append, List.count_replicate] at ha hb hc hd
  refine ⟨by simpa using ha, Draw.code_injective (Prod.ext ?_ (Prod.ext ?_ ?_))⟩
  · simpa using hb
  · simpa using hc
  · simpa using hd

def noteEnvironment : Environment where
  automerge := noAutomerge
  toText := fun _ => ""
  config := anyValue
  search :=
    { contains := fun _ _ => true, indexed := fun _ _ => true, score := fun _ _ _ => 1
      compareNumbers := fun _ _ => none }
  fresh := drawnName
  actors := fun _ _ => "actor"
  scopeOfKey := fun _ => "scope"

theorem noAutomerge_lawful : noAutomerge.Lawful :=
  ⟨fun h _ => by simp [noAutomerge] at h, fun _ _ hc => by simp [noAutomerge] at hc⟩

/-- The metadata of a request for a note, with the base versions it names. -/
def noteSelection (publicationKey : Option String) (close : Bool) (baseVersions : List String) :
    PolicySelection where
  fields := if close then [("close", .bool true)] else []
  scope := "scope"
  consistency :=
    { snapshotKey := none, allowedSources := [.authority], causal := [], linearizationKey := none
      sessions := [], commitOrderingKey := none }
  conflict :=
    { strategy := .mvcc, baseVersionsField := "base_versions"
      baseVersions := some (.array (baseVersions.map .string)), merge := [], otherwise := .mvcc }
  idempotencyKey := none
  publicationKey
  idempotency := .disabled
  publication :=
    match publicationKey with
    | none => .immediate
    | some _ => .batch ["unit"] "close" (.bool true) 1000

/-- A clock that stands still. -/
def readingsAt (now : ℕ) : Readings where
  arrived := now
  locked := now
  selected := now
  identified := now
  recorded := now
  accepted := now
  resolved := fun _ => now
  published := now

def clockAt (now : ℕ) : Clock := ⟨now, now, now⟩

/-- A request to write a note. -/
def noteRequest (mutation : Mutation) (publicationKey : Option String) (close : Bool)
    (baseVersions : List String) : Request :=
  { mutation, selection := noteSelection publicationKey close baseVersions
    deadlineUnixMs := none }

/-- A request to create the note "n". -/
def createNote (value : Json.Value) (publicationKey : Option String) (close : Bool) : Request :=
  noteRequest (.create "note" (some "n") value) publicationKey close []

/-- A request to update the note "n". -/
def updateNote (value : Json.Value) (publicationKey : Option String) (close : Bool)
    (baseVersions : List String) : Request :=
  noteRequest (.update ⟨"note", "n"⟩ value) publicationKey close baseVersions

def noteKey : EntityKey := ⟨"scope", "note", "n"⟩

/-- The world after some events. -/
def World.after (env : Environment) (events : List Event) : World :=
  events.foldl (fun w event => w.step env event) World.start

theorem World.after_reachable (env : Environment) (events : List Event) :
    Reachable env (World.after env events) := by
  induction events using List.reverseRecOn with
  | nil => exact .start
  | append_singleton events event ih =>
    have hlast : World.after env (events ++ [event]) = (World.after env events).step env event := by
      simp only [World.after, List.foldl_append, List.foldl_cons, List.foldl_nil]
    rw [hlast]
    exact .step event ih trivial

/-- The note "n" was created, and nothing else. -/
def onlyNote : World :=
  World.after noteEnvironment [.arrive (createNote .null none false) (readingsAt 5),
    .advance 0 (clockAt 5), .advance 0 (clockAt 5)]

theorem onlyNote_reachable : Reachable noteEnvironment onlyNote :=
  World.after_reachable noteEnvironment _

end Patchouli
