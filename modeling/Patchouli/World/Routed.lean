import Patchouli.Backend.Admission
import Patchouli.Backend.Router
import Patchouli.Sqlite.Origins
import Patchouli.World.Informed
import Patchouli.World.Remote

/-!
# Engines over a router

The whole backend: requests come with metadata, the controller selects from it, and every provider
call goes through the router to one of several databases. Mutations in flight for different scopes
interleave; each of them only ever talks to the provider of its scope, so that what one provider sees
is a run of a deployment that has no other. Everything that holds of every run over one provider
therefore holds of each provider of a routed deployment.

Seen from one provider, the requests for the others arrive and then do nothing.

## Main definitions

* `Deployment`, `Routed`, `Deployment.step`
* `Deployment.view` — the world of one provider

## Main results

* `Deployment.routed_simulates` — it is reached by a run over that provider
* `Deployment.calls_routed` — no call of a mutation is refused by the router
* `Deployment.rows_routed` — every version is stored where its scope belongs
-/

namespace Patchouli

open Json (Value)
open Db

/-! ### Calls of a mutation -/

namespace Process

variable {env : Environment} {i : ℕ} {p : Process} {allowed : World → Event → Prop} {w : World}

/-- The identity of a mutation is a key of its selection. -/
theorem Sound.identity_mem (h : p.Sound env i)
    (hlive : ∀ outcome route, p.stage ≠ .answered outcome route) {identity : String}
    (hidentity : p.admitted.identity = some identity) :
    identity ∈ p.request.selection.controlKeys := by
  have hadmit := h.admitted.resolve_left fun ⟨outcome, route, hanswered⟩ =>
    hlive outcome route hanswered
  have hkey := (admitRequest_eq_ok hadmit).2.2
  rw [hidentity] at hkey
  unfold idempotencyIdentity at hkey
  split at hkey
  · cases hkey
  · rename_i key hsome
    rw [Except.ok.injEq, Option.some.injEq] at hkey
    subst hkey
    simp [PolicySelection.controlKeys, hsome]
  · cases hkey

/-- The record of a prepared mutation has its identity. -/
theorem Prepares.record_identity {config : BackendConfig} {A : Automerge} {heads : List String}
    {prepared : Patchouli.Prepared} (h : Prepares A config (p.preparation env i) heads prepared)
    {record : IdempotencyRecord} (hrecord : prepared.record = some record) :
    p.admitted.identity = some record.identityJson := by
  have heq := h.record_eq
  rw [hrecord] at heq
  have hpreparation : (p.preparation env i).identity = p.admitted.identity := rfl
  rw [hpreparation] at heq
  cases hidentity : p.admitted.identity with
  | none =>
    rw [hidentity] at heq
    cases heq
  | some identity =>
    rw [hidentity] at heq
    obtain ⟨made, hmade, heq⟩ := Except.bind_eq_ok.mp heq
    rw [Except.pure_eq_ok, Except.ok.injEq, Option.some.injEq] at heq
    subst heq
    unfold idempotencyRecordAt at hmade
    split at hmade
    · cases hmade
    · split at hmade
      · cases hmade
      · rw [Except.ok.injEq] at hmade
        rw [← hmade]

/-- Resolutions are of entities in the scope of the mutation. -/
theorem FromConflicts.scope_eq (hlaw : env.automerge.Lawful) (h : p.Sound env i)
    (hlive : ∀ outcome route, p.stage ≠ .answered outcome route)
    {resolutions : List WorkUnitResolution} (hfrom : p.FromConflicts env allowed w i resolutions) :
    ∀ r ∈ resolutions, r.entity.key.scopeJson = p.request.selection.scope := by
  obtain ⟨w₁, conflicts, selected, hearlier, hselected, hconflicts, hresolutions⟩ := hfrom
  have hsound := hearlier.reachable.reachable.sound hlaw
  obtain ⟨hscope, hkeyed⟩ := h.workUnit hlive hselected
  obtain ⟨-, hall, -⟩ := publicationConflicts_spec hsound.inv.staging hconflicts
  obtain ⟨hlength, hresolved⟩ := resolvePublicationConflicts_resolved hresolutions
  intro r hr
  obtain ⟨n, hn, rfl⟩ := List.getElem_of_mem hr
  have hlt : n < conflicts.length := hlength ▸ hn
  obtain ⟨r', hr', _, _, _, _, _, hresolved⟩ := hresolved n _ (List.getElem?_eq_getElem hlt)
  rw [List.getElem?_eq_getElem hn, Option.some.injEq] at hr'
  subst hr'
  have hmutated := (hall _ (List.getElem_mem hlt)).mutated
  obtain ⟨⟨e, he, hid, hkey⟩, -⟩ := mem_workUnitMutatedEntities.mp hmutated
  obtain ⟨u, hu, huid, huscope⟩ := hsound.inv.staging.entityUnits e he
  rw [hresolved.key_eq, ← hkey, ← huscope, ← hsound.keyed u hu, huid, hid, hkeyed, hscope]

variable {texts : ScopeTexts} {scope : Meta}

/-- A request all of whose keys are of one scope. -/
def InScope (texts : ScopeTexts) (scope : Meta) (p : Process) : Prop :=
  p.request.selection.scope = texts.text scope ∧
    ∀ key ∈ p.request.selection.controlKeys, texts.KeyOf scope key

/-- **The calls of a mutation stay in its scope.** -/
theorem providerCall_inScope (hlaw : env.automerge.Lawful) (h : p.Sound env i)
    (hinformed : p.Informed env allowed w i) (hscope : p.InScope texts scope) {call : ProviderCall}
    (hcall : p.providerCall env i = some call) : call.op.InScope texts scope := by
  have hkey : (p.key env i).scopeJson = texts.text scope := hscope.1
  have hstage := h.stage
  unfold StageSound at hstage
  unfold Informed at hinformed
  unfold providerCall at hcall
  split at hcall
  · rename_i identity hat
    have hlive : ∀ outcome route, p.stage ≠ .answered outcome route := by simp [hat]
    rw [hat] at hstage
    have hidentity := hscope.2 _ (h.identity_mem hlive hstage)
    split at hcall
    · rename_i selected hselected
      rw [← Option.some.inj hcall]
      exact ⟨(h.workUnit hlive hselected).1.trans hscope.1, hidentity⟩
    · rw [← Option.some.inj hcall]
      exact ⟨hscope.1, hidentity⟩
  · rename_i hat
    have hlive : ∀ outcome route, p.stage ≠ .answered outcome route := by simp [hat]
    split at hcall
    · rename_i selected hselected
      rw [← Option.some.inj hcall]
      exact ⟨(h.workUnit hlive hselected).1.trans hscope.1, hkey⟩
    · rw [← Option.some.inj hcall]
      exact hkey
  · rename_i prepared hat
    have hlive : ∀ outcome route, p.stage ≠ .answered outcome route := by simp [hat]
    rw [hat] at hstage
    obtain ⟨heads, hprepares⟩ := Prepared.prepares hlaw hstage
    have hcommit := (Prepares.scope_eq hprepares).2.trans hscope.1
    have hrecord : ∀ record ∈ prepared.record, texts.KeyOf scope record.identityJson :=
      fun record hrecord => hscope.2 _ (h.identity_mem hlive
        (Prepares.record_identity hprepares hrecord))
    split at hcall
    · rename_i selected _ hselected
      rw [← Option.some.inj hcall]
      exact ⟨(h.workUnit hlive hselected).1.trans hscope.1, hcommit, hrecord⟩
    · rename_i record _ hsome
      rw [← Option.some.inj hcall]
      exact ⟨hcommit, hrecord record hsome⟩
    · rw [← Option.some.inj hcall]
      exact hcommit
  · rename_i prepared resolutions hat
    have hlive : ∀ outcome route, p.stage ≠ .answered outcome route := by simp [hat]
    rw [hat] at hinformed
    split at hcall
    · rename_i selected hselected
      rw [← Option.some.inj hcall]
      exact ⟨(h.workUnit hlive hselected).1.trans hscope.1, fun r hr =>
        (FromConflicts.scope_eq hlaw h hlive hinformed.2 r hr).trans hscope.1⟩
    · cases hcall
  · rename_i prepared resolutions hat
    rw [hat] at hstage
    obtain ⟨heads, hprepares⟩ := Prepared.prepares hlaw hstage.1
    rw [← Option.some.inj hcall]
    exact (Prepares.scope_eq hprepares).2.trans hscope.1
  · cases hcall

end Process

/-! ### Deployments -/

/-- The metadata of a request, as it is read. -/
structure ReadMeta where
  fields : Meta
  normal : (Value.object fields).Normal

/-- What the engines of a routed deployment share. The scopes it selects are read back as they were
written: they have no floats, or only some that survive it. -/
structure Deployment where
  automerge : Automerge
  toText : Value → String
  search : Search
  fresh : ℕ → Draw → String
  actors : ℕ → String → String
  selector : PolicySelector
  router : ScopeRouter
  texts : ScopeTexts
  floats_eq : texts.floats = selector.libraries.floats
  recalls : ∀ policy metadata, metadata.Normal → selector.Selectable policy metadata →
    texts.Recalls (selector.scopeFor metadata)

namespace Deployment

variable (d : Deployment)

/-- The same engines over a single provider. The scope of a control key is found as the router
finds it. -/
def env : Environment where
  automerge := d.automerge
  toText := d.toText
  config := d.selector.config.engineConfig d.selector.libraries.schemas
  search := d.search
  fresh := d.fresh
  actors := d.actors
  scopeOfKey := fun key =>
    match d.texts.readIdentity key with
    | .ok scope => d.texts.text scope
    | .error error => error

/-- The provider of a scope. -/
def home? (scope : String) : Option String := (d.router.routeScope d.texts scope).toOption

end Deployment

/-- The databases of all providers, and the mutations in flight. -/
structure Routed where
  dbs : String → Db
  processes : List Process

/-- What can happen. Requests come with their metadata; a provider can be started again, and a
prune can crash. -/
inductive RoutedEvent where
  | arrive (metadata : ReadMeta) (mutation : Mutation) (readings : Readings)
  | advance (i : ℕ) (clock : Clock)
  | read (metadata : ReadMeta) (entityRef : EntityRef) (now : ℕ) (clock : Clock)
  | retrieve (metadata : ReadMeta) (types : List String) (query : RetrieveQuery) (now : ℕ)
      (clock : Clock)
  | readChanges (query : ChangeQuery)
  | crashInPrune (query : ChangeQuery)
  | sweep (provider : String) (now : ℕ)

namespace Deployment

variable (d : Deployment) (w : Routed)

/-- A call through the router. -/
def dispatch {α : Type} (op : Operation α) (clock : Clock) : Except ProviderError α × Routed :=
  match op.route d.router d.texts with
  | .error error => (.error error, w)
  | .ok name =>
    let reply := op.call d.search (w.dbs name) clock
    (reply.outcome, { w with dbs := Function.update w.dbs name reply.db })

/-- What a request asks for, and by when. -/
def select (metadata : ReadMeta) (entityType : String) : Option (PolicySelection × Option ℕ) :=
  match deadlineFromMeta metadata.fields,
      d.selector.select entityType (.object metadata.fields) with
  | .ok deadline, .ok selected => some (selected.selection, deadline)
  | _, _ => none

/-- After `BackendEngine::read`. -/
def afterRead (selection : PolicySelection) (entityRef : EntityRef) (deadline : Option ℕ) (now : ℕ)
    (clock : Clock) : Routed :=
  match selectedWorkUnit selection deadline now, readConsistency [selection] deadline false with
  | .ok (some selected), .ok consistency =>
    (d.dispatch w (.readEntityInWorkUnit selected.workUnit (entityKey selection entityRef)
      consistency) clock).2
  | .ok none, .ok consistency =>
    (d.dispatch w (.readEntity (entityKey selection entityRef) consistency) clock).2
  | _, _ => w

/-- After `BackendEngine::retrieve`. -/
def afterRetrieve (selections : List PolicySelection) (query : RetrieveQuery)
    (deadline : Option ℕ) (now : ℕ) (clock : Clock) : Routed :=
  match selectedRetrievalWorkUnit selections deadline now,
      readConsistency selections deadline false with
  | .ok (some selected), .ok consistency =>
    (d.dispatch w (.retrieveEntitiesInWorkUnit selected.workUnit query consistency) clock).2
  | .ok none, .ok consistency => (d.dispatch w (.retrieveEntities query consistency) clock).2
  | _, _ => w

/-- One event. -/
def step : RoutedEvent → Routed
  | .arrive metadata mutation readings =>
    match d.select metadata mutation.entityType with
    | some (selection, deadline) =>
      { w with processes := w.processes ++
          [Request.arrive d.env ⟨mutation, selection, deadline⟩ readings] }
    | none => w
  | .advance i clock =>
    match w.processes[i]? with
    | none => w
    | some p =>
      match p.providerCall d.env i with
      | none => w
      | some call =>
        let (outcome, w) := d.dispatch w call.op clock
        { w with processes := w.processes.set i (call.resume outcome) }
  | .read metadata entityRef now clock =>
    match d.select metadata entityRef.entityType with
    | some (selection, deadline) => d.afterRead w selection entityRef deadline now clock
    | none => w
  | .retrieve metadata types query now clock =>
    match types.mapM (d.select metadata), deadlineFromMeta metadata.fields,
        d.selector.selectScope (.object metadata.fields) with
    | some selected, .ok deadline, .ok scopeJson =>
      d.afterRetrieve w (selected.map (·.1)) { query with scopeJson } deadline now clock
    | _, _, _ => w
  | .readChanges query => (d.dispatch w (.readChanges query) ⟨0, 0, 0⟩).2
  | .crashInPrune query =>
    match d.router.routeScope d.texts query.scopeJson with
    | .ok name => { w with dbs := Function.update w.dbs name ((w.dbs name).notePrune query) }
    | .error _ => w
  | .sweep name now =>
    { w with dbs := Function.update w.dbs name ((w.dbs name).sweepExpiredWorkUnits now).db }

/-- What runs over the deployment reach. -/
inductive Reaches : Routed → Prop
  | start : Reaches ⟨fun _ => Db.empty, []⟩
  | step {w : Routed} (event : RoutedEvent) (h : Reaches w) : Reaches (d.step w event)

/-- The deployment after some events. -/
def after (events : List RoutedEvent) : Routed :=
  events.foldl d.step ⟨fun _ => Db.empty, []⟩

theorem after_reaches (events : List RoutedEvent) :
    d.Reaches (d.after events) := by
  induction events using List.reverseRecOn with
  | nil => exact .start
  | append_singleton events event ih =>
    have hlast : d.after (events ++ [event]) = d.step (d.after events) event := by
      simp only [after, List.foldl_append, List.foldl_cons, List.foldl_nil]
    rw [hlast]
    exact .step event ih

/-! ### One provider -/

/-- A mutation as one provider sees it: one for another provider has only just arrived. -/
def viewProcess (name : String) (p : Process) : Process :=
  if d.home? p.request.selection.scope = some name then p
  else p.request.arrive d.env p.readings

/-- The world of one provider. -/
def view (name : String) : World := ⟨w.dbs name, w.processes.map (d.viewProcess name)⟩

/-- The events of one provider. -/
def Local (name : String) (w : World) (event : Event) : Prop :=
  ∀ i clock, event = .advance i clock → ∀ p, w.processes[i]? = some p →
    d.home? p.request.selection.scope = some name

end Deployment

/-! ### Requests of one scope -/

theorem Request.arrive_request (env : Environment) (request : Request) (readings : Readings) :
    (request.arrive env readings).request = request ∧
      (request.arrive env readings).readings = readings := by
  unfold Request.arrive
  dsimp only
  split
  · exact ⟨rfl, rfl⟩
  · split
    · exact ⟨rfl, rfl⟩
    · unfold Process.beginRead
      split <;> exact ⟨rfl, rfl⟩

namespace Deployment

variable {d : Deployment} {w : Routed}

/-- A selection all of whose keys are of one scope. -/
structure Selects (d : Deployment) (scope : Meta) (selection : PolicySelection) : Prop where
  recalls : d.texts.Recalls scope
  scope_eq : selection.scope = d.texts.text scope
  keys : ∀ key ∈ selection.controlKeys, d.texts.KeyOf scope key

theorem select_selects {metadata : ReadMeta} {entityType : String} {selection : PolicySelection}
    {deadline : Option ℕ} (h : d.select metadata entityType = some (selection, deadline)) :
    d.Selects (d.selector.scopeFor (.object metadata.fields)) selection := by
  unfold select at h
  split at h
  · rename_i selected _ hselect
    rw [Option.some.injEq, Prod.mk.injEq] at h
    obtain ⟨rfl, -⟩ := h
    obtain ⟨policy, -, hselectable, rfl⟩ := PolicySelector.select_eq_ok.mp hselect
    have hfields := @LoadedConfig.present_numbersRead d.selector.config _
      (metadata.normal.imp fun _ h => h.1)
    refine ⟨d.recalls policy _ metadata.normal hselectable, ?_, fun key hkey => ?_⟩
    · rw [ScopeTexts.text, d.floats_eq]
      rfl
    · obtain ⟨names, rfl⟩ := PolicySelector.selected_controlKeys hkey
      exact ⟨_, hfields.restrict names, by rw [d.floats_eq]; rfl⟩
  · cases h

/-- The scope of a control key, as the single-provider model reads it. -/
theorem Selects.keyInScope {scope : Meta} {selection : PolicySelection}
    (h : d.Selects scope selection) : selection.KeyInScope d.env.scopeOfKey := by
  intro key hkey
  obtain ⟨fields, hfields, rfl⟩ := h.keys key (List.mem_append_right _ (by simpa using hkey))
  simp only [env, h.recalls.identity fields hfields, h.scope_eq]

theorem home?_text {scope : Meta} (h : d.texts.Recalls scope) :
    d.home? (d.texts.text scope) = some (d.router.providerOf scope) := by
  rw [home?, ScopeRouter.routeScope_text h]
  rfl

/-! ### What a provider sees of an event -/

theorem viewProcess_arrive (name : String) (request : Request) (readings : Readings) :
    d.viewProcess name (request.arrive d.env readings) = request.arrive d.env readings := by
  obtain ⟨hrequest, hreadings⟩ := request.arrive_request d.env readings
  unfold viewProcess
  rw [hrequest, hreadings, ite_self]

theorem view_update {name other : String} {db : Db} :
    d.view { w with dbs := Function.update w.dbs name db } other =
      if other = name then { d.view w other with db } else d.view w other := by
  unfold view
  by_cases h : other = name
  · subst h
    simp
  · simp [h]

/-- A call whose route is known. -/
theorem dispatch_of_route {α : Type} {op : Operation α} {name : String} {clock : Clock}
    (h : op.route d.router d.texts = .ok name) :
    d.dispatch w op clock = ((op.call d.search (w.dbs name) clock).outcome,
      { w with dbs := Function.update w.dbs name (op.call d.search (w.dbs name) clock).db }) := by
  unfold dispatch
  rw [h]

/-- What a provider sees of a call that changes nothing but its own database. -/
theorem view_dispatch {α : Type} {op : Operation α} {name : String} {clock : Clock}
    (h : op.route d.router d.texts = .ok name) (other : String) :
    d.view (d.dispatch w op clock).2 other =
      if other = name then
        { d.view w other with db := (op.call d.search (d.view w other).db clock).db }
      else d.view w other := by
  rw [dispatch_of_route h, view_update]
  split
  · rename_i heq
    rw [heq]
    rfl
  · rfl

variable (d) in
/-- What is known of a deployment. -/
structure Kept (w : Routed) : Prop where
  selects : ∀ p ∈ w.processes, ∃ scope, d.Selects scope p.request.selection
  views : ∀ name, ReachableWhen d.env (d.Local name) (d.view w name)

/-- A provider for which an event is one event, or nothing. -/
theorem views_of {w' : Routed} (h : d.Kept w) (name : String) (event : Event)
    (hview : d.view w' name = (d.view w name).step d.env event ∨ d.view w' name = d.view w name)
    (hlocal : d.Local name (d.view w name) event) :
    ReachableWhen d.env (d.Local name) (d.view w' name) := by
  rcases hview with hstep | hsame
  · exact hstep ▸ .step event (h.views name) hlocal
  · exact hsame ▸ h.views name

/-- Reading and upkeep are always local. -/
theorem local_of_ne {name : String} {w : World} {event : Event}
    (h : ∀ i clock, event ≠ .advance i clock) : d.Local name w event :=
  fun i clock heq => absurd heq (h i clock)

theorem Kept.afterRead (h : d.Kept w) {scope : Meta} {selection : PolicySelection}
    (hselects : d.Selects scope selection) (entityRef : EntityRef) (deadline : Option ℕ) (now : ℕ)
    (clock : Clock) : d.Kept (d.afterRead w selection entityRef deadline now clock) := by
  have hprocesses : (d.afterRead w selection entityRef deadline now clock).processes =
      w.processes := by
    unfold Deployment.afterRead dispatch
    split
    · split <;> rfl
    · split <;> rfl
    · rfl
  refine ⟨by rw [hprocesses]; exact h.selects, fun name => views_of h name
    (.read selection entityRef deadline now clock) ?_ (local_of_ne (by simp))⟩
  simp only [World.step, World.afterRead, if_pos hselects.keyInScope]
  unfold Deployment.afterRead
  cases hselected : selectedWorkUnit selection deadline now with
  | error error => exact Or.inr rfl
  | ok unit =>
    cases readConsistency [selection] deadline false with
    | error error => cases unit <;> exact Or.inr rfl
    | ok consistency =>
      cases unit with
      | none =>
        have hop : (Operation.readEntity (entityKey selection entityRef) consistency).InScope
            d.texts scope := hselects.scope_eq
        dsimp only
        rw [view_dispatch (ScopeRouter.route_of_inScope hselects.recalls hop)]
        split
        · exact Or.inl rfl
        · exact Or.inr rfl
      | some selected =>
        have hop : (Operation.readEntityInWorkUnit selected.workUnit
            (entityKey selection entityRef) consistency).InScope d.texts scope :=
          ⟨(selectedWorkUnit_some hselected).2.1.trans hselects.scope_eq, hselects.scope_eq⟩
        dsimp only
        rw [view_dispatch (ScopeRouter.route_of_inScope hselects.recalls hop)]
        split
        · exact Or.inl rfl
        · exact Or.inr rfl

/-- The selections of a retrieval are all of its scope. -/
theorem select_mapM {metadata : ReadMeta} {types : List String}
    {selected : List (PolicySelection × Option ℕ)}
    (h : types.mapM (d.select metadata) = some selected) :
    ∀ selection ∈ selected.map (·.1),
      d.Selects (d.selector.scopeFor (.object metadata.fields)) selection := by
  induction types generalizing selected with
  | nil =>
    rw [List.mapM_nil, Option.pure_def, Option.some.injEq] at h
    simp [← h]
  | cons entityType rest ih =>
    rw [List.mapM_cons] at h
    obtain ⟨⟨selection, deadline⟩, hselect, h⟩ := Option.bind_eq_some_iff.mp h
    obtain ⟨others, hothers, h⟩ := Option.bind_eq_some_iff.mp h
    rw [Option.pure_def, Option.some.injEq] at h
    rw [← h, List.map_cons, List.forall_mem_cons]
    exact ⟨select_selects hselect, ih hothers⟩

theorem Kept.afterRetrieve (h : d.Kept w) {scope : Meta} {selections : List PolicySelection}
    (hselects : ∀ selection ∈ selections, d.Selects scope selection) {query : RetrieveQuery}
    (hquery : query.scopeJson = d.texts.text scope) (deadline : Option ℕ) (now : ℕ) (clock : Clock) :
    d.Kept (d.afterRetrieve w selections query deadline now clock) := by
  have hprocesses : (d.afterRetrieve w selections query deadline now clock).processes =
      w.processes := by
    unfold Deployment.afterRetrieve dispatch
    split
    · split <;> rfl
    · split <;> rfl
    · rfl
  have hguard : ∀ selection ∈ selections, selection.scope = query.scopeJson ∧
      selection.KeyInScope d.env.scopeOfKey :=
    fun selection hselection => ⟨(hselects selection hselection).scope_eq.trans hquery.symm,
      (hselects selection hselection).keyInScope⟩
  refine ⟨by rw [hprocesses]; exact h.selects, fun name => views_of h name
    (.retrieve selections query deadline now clock) ?_ (local_of_ne (by simp))⟩
  simp only [World.step, World.afterRetrieve, if_pos hguard]
  unfold Deployment.afterRetrieve
  cases hselected : selectedRetrievalWorkUnit selections deadline now with
  | error error => exact Or.inr rfl
  | ok unit =>
    cases hconsistency : readConsistency selections deadline false with
    | error error => cases unit <;> exact Or.inr rfl
    | ok consistency =>
      cases unit with
      | none =>
        have hop : (Operation.retrieveEntities query consistency).InScope d.texts scope := hquery
        obtain ⟨selection, hmem⟩ := readConsistency_nonempty hconsistency
        dsimp only
        rw [view_dispatch (ScopeRouter.route_of_inScope (hselects selection hmem).recalls hop)]
        split
        · exact Or.inl rfl
        · exact Or.inr rfl
      | some selected =>
        obtain ⟨selection, hmem, hone⟩ := World.selectedRetrievalWorkUnit_some hselected
        have hop : (Operation.retrieveEntitiesInWorkUnit selected.workUnit query
            consistency).InScope d.texts scope :=
          ⟨(selectedWorkUnit_some hone).2.1.trans (hselects selection hmem).scope_eq, hquery⟩
        dsimp only
        rw [view_dispatch (ScopeRouter.route_of_inScope (hselects selection hmem).recalls hop)]
        split
        · exact Or.inl rfl
        · exact Or.inr rfl

/-! ### Mutations -/

theorem set_of_getElem? {α : Type*} {xs : List α} {i : ℕ} {x : α} (h : xs[i]? = some x) :
    xs.set i x = xs := by
  obtain ⟨hi, rfl⟩ := List.getElem?_eq_some_iff.mp h
  exact List.set_getElem_self hi

/-- A mutation is known to the provider of its scope as it is. -/
theorem view_process (h : d.Kept w) {i : ℕ} {p : Process} (hp : w.processes[i]? = some p) :
    ∃ scope, d.Selects scope p.request.selection ∧
      d.home? p.request.selection.scope = some (d.router.providerOf scope) ∧
      (d.view w (d.router.providerOf scope)).processes[i]? = some p := by
  obtain ⟨scope, hselects⟩ := h.selects p (List.mem_of_getElem? hp)
  have hhome : d.home? p.request.selection.scope = some (d.router.providerOf scope) := by
    rw [hselects.scope_eq, home?_text hselects.recalls]
  refine ⟨scope, hselects, hhome, ?_⟩
  rw [view, List.getElem?_map, hp, Option.map_some, viewProcess, if_pos hhome]

/-- **The call of a mutation goes to the provider of its scope.** -/
theorem call_route (hlaw : d.automerge.Lawful) (h : d.Kept w) {i : ℕ} {p : Process}
    (hp : w.processes[i]? = some p) {call : ProviderCall}
    (hcall : p.providerCall d.env i = some call) :
    ∃ name, d.home? p.request.selection.scope = some name ∧
      call.op.route d.router d.texts = .ok name := by
  obtain ⟨scope, hselects, hhome, hview⟩ := view_process h hp
  have hreach := h.views (d.router.providerOf scope)
  have hsound := (hreach.reachable.sound hlaw).processes i p hview
  have hinformed := hreach.informed hlaw i p hview
  exact ⟨_, hhome, ScopeRouter.route_of_inScope hselects.recalls
    (Process.providerCall_inScope hlaw hsound hinformed ⟨hselects.scope_eq, hselects.keys⟩ hcall)⟩

/-- A call is a step of the mutation over its provider. -/
theorem step_advance (hlaw : d.automerge.Lawful) (h : d.Kept w) {i : ℕ} {p : Process}
    (hp : w.processes[i]? = some p) (clock : Clock) :
    ∃ name, d.home? p.request.selection.scope = some name ∧
      d.step w (.advance i clock) =
        { dbs := Function.update w.dbs name (p.step d.env i clock (w.dbs name)).2
          processes := w.processes.set i (p.step d.env i clock (w.dbs name)).1 } := by
  have hset := set_of_getElem? hp
  cases hcall : p.providerCall d.env i with
  | none =>
    obtain ⟨scope, -, hhome, -⟩ := view_process h hp
    refine ⟨_, hhome, ?_⟩
    simp only [step, hp, hcall, Process.step_eq_providerCall, Function.update_eq_self, hset]
  | some call =>
    obtain ⟨name, hhome, hroute⟩ := call_route hlaw h hp hcall
    refine ⟨name, hhome, ?_⟩
    simp only [step, hp, hcall, dispatch_of_route hroute, Process.step_eq_providerCall]
    rfl

theorem Kept.advance (hlaw : d.automerge.Lawful) (h : d.Kept w) (i : ℕ) (clock : Clock) :
    d.Kept (d.step w (.advance i clock)) := by
  cases hp : w.processes[i]? with
  | none =>
    have hsame : d.step w (.advance i clock) = w := by simp only [step, hp]
    rw [hsame]
    exact h
  | some p =>
    obtain ⟨name, hhome, hstep⟩ := step_advance hlaw h hp clock
    obtain ⟨hrequest, hreadings, -⟩ := @Process.step_request d.env i p clock (w.dbs name)
    refine ⟨?_, fun other => ?_⟩
    · rw [hstep]
      intro q hq
      rcases List.mem_or_eq_of_mem_set hq with hold | rfl
      · exact h.selects q hold
      · rw [hrequest]
        exact h.selects p (List.mem_of_getElem? hp)
    · have hseen : (d.view w other).processes[i]? = some (d.viewProcess other p) := by
        rw [view, List.getElem?_map, hp, Option.map_some]
      by_cases hother : other = name
      · subst hother
        have hp' : (d.view w other).processes[i]? = some p := by
          rw [hseen, viewProcess, if_pos hhome]
        refine views_of h other (.advance i clock) (Or.inl ?_) ?_
        · simp only [World.step, hp', hstep]
          simp only [view, Function.update_self, List.map_set, viewProcess, hrequest, if_pos hhome]
        · rintro j clock' ⟨⟩ q hq
          rw [hp', Option.some.injEq] at hq
          exact hq ▸ hhome
      · have hnot : d.home? p.request.selection.scope ≠ some other := by
          rw [hhome]
          simpa using Ne.symm hother
        have hprocess : d.viewProcess other (p.step d.env i clock (w.dbs name)).1 =
            d.viewProcess other p := by
          rw [viewProcess, viewProcess, hrequest, hreadings, if_neg hnot, if_neg hnot]
        have hsame : d.view (d.step w (.advance i clock)) other = d.view w other := by
          rw [hstep]
          simp only [view, Function.update_of_ne hother, List.map_set, hprocess]
          exact congrArg (World.mk _) (set_of_getElem? hseen)
        exact hsame ▸ h.views other

/-! ### Runs -/

/-- **An event keeps what is known of a deployment.** -/
theorem Kept.step (hlaw : d.automerge.Lawful) (h : d.Kept w) (event : RoutedEvent) :
    d.Kept (d.step w event) := by
  cases event with
  | arrive metadata mutation readings =>
    simp only [Deployment.step]
    split
    · rename_i selection deadline hselect
      have hselects := select_selects hselect
      refine ⟨fun q hq => ?_, fun name => views_of h name
        (.arrive ⟨mutation, selection, deadline⟩ readings) (Or.inl ?_) (local_of_ne (by simp))⟩
      · rcases List.mem_append.mp hq with hold | hnew
        · exact h.selects q hold
        · rw [List.mem_singleton.mp hnew, (Request.arrive_request _ _ _).1]
          exact ⟨_, hselects⟩
      · simp only [World.step, if_pos hselects.keyInScope]
        simp only [view, List.map_append, List.map_singleton, viewProcess_arrive]
    · exact h
  | advance i clock => exact h.advance hlaw i clock
  | read metadata entityRef now clock =>
    simp only [Deployment.step]
    split
    · rename_i selection deadline hselect
      exact h.afterRead (select_selects hselect) entityRef deadline now clock
    · exact h
  | retrieve metadata types query now clock =>
    simp only [Deployment.step]
    split
    · rename_i selected deadline scopeJson hselected hdeadline hscope
      refine h.afterRetrieve (select_mapM hselected) ?_ deadline now clock
      rw [PolicySelector.selectScope_eq_ok hscope, ScopeTexts.text, d.floats_eq]
    · exact h
  | readChanges query =>
    cases hroute : (Operation.readChanges query).route d.router d.texts with
    | error error =>
      simp only [Deployment.step, dispatch, hroute]
      exact h
    | ok name =>
      refine ⟨?_, fun other => views_of h other (.readChanges query) ?_ (local_of_ne (by simp))⟩
      · simp only [Deployment.step, dispatch_of_route hroute]
        exact h.selects
      · simp only [Deployment.step, view_dispatch hroute]
        split
        · exact Or.inl rfl
        · exact Or.inr rfl
  | crashInPrune query =>
    simp only [Deployment.step]
    split
    · refine ⟨h.selects, fun other => views_of h other (.crashInPrune query) ?_
        (local_of_ne (by simp))⟩
      rw [view_update]
      split
      · rename_i heq
        exact Or.inl (heq ▸ rfl)
      · exact Or.inr rfl
    · exact h
  | sweep name now =>
    refine ⟨h.selects, fun other => views_of h other (.sweep now) ?_ (local_of_ne (by simp))⟩
    simp only [Deployment.step, view_update]
    split
    · rename_i heq
      exact Or.inl (heq ▸ rfl)
    · exact Or.inr rfl

theorem Reaches.kept (hlaw : d.automerge.Lawful) (h : d.Reaches w) : d.Kept w := by
  induction h with
  | start => exact ⟨by simp, fun name => .start⟩
  | step event _ ih => exact ih.step hlaw event

end Deployment

/-! ### Where rows are -/

namespace Process

variable {env : Environment} {i : ℕ} {p : Process} {allowed : World → Event → Prop} {w : World}

/-- What a mutation stores is in its scope. -/
theorem brings_scope (hlaw : env.automerge.Lawful) (h : p.Sound env i)
    (hinformed : p.Informed env allowed w i) {key : EntityKey} {v : StoredEntityVersion}
    (hbrings : (p.brings env).version key v) : key.scopeJson = p.request.selection.scope := by
  have hstage := h.stage
  unfold StageSound at hstage
  unfold Informed at hinformed
  dsimp only [brings] at hbrings
  split at hbrings
  · rename_i prepared hat
    rw [hat] at hstage
    obtain ⟨heads, hprepares⟩ := Prepared.prepares hlaw hstage
    rw [hbrings.1, (Prepares.scope_eq hprepares).2]
  · rename_i prepared resolutions hat
    have hlive : ∀ outcome route, p.stage ≠ .answered outcome route := by simp [hat]
    rw [hat] at hinformed
    obtain ⟨r, hr, rfl, -⟩ := hbrings
    exact FromConflicts.scope_eq hlaw h hlive hinformed.2 r hr
  · exact hbrings.elim

end Process

/-- Where only mutations of some scopes make steps, only versions of these scopes are stored. -/
theorem ReachableWhen.rows_inScopes {env : Environment} {allowed : World → Event → Prop} {w : World}
    (hlaw : env.automerge.Lawful) {S : String → Prop}
    (hallowed : ∀ w i clock p, allowed w (.advance i clock) → w.processes[i]? = some p →
      S p.request.selection.scope)
    (h : ReachableWhen env allowed w) : ∀ r ∈ w.db.versions, S r.key.scopeJson := by
  induction h with
  | start => simp [World.start, Db.empty]
  | @step w event hreach hevent ih =>
    have hsound := hreach.reachable.sound hlaw
    intro r hr
    cases Effects.rowFrom hlaw hsound.inv (World.step_effects hlaw hsound event) r hr with
    | kept hold => exact ih r hold
    | published hold hunit hcommitted heq =>
      subst heq
      have hrow := ih _ hold
      exact hrow
    | @brought v hbrought hstores =>
      cases event with
      | advance i clock =>
        obtain ⟨p, hp, hbrings⟩ := hbrought
        rw [Process.brings_scope hlaw (hsound.processes i p hp) (hreach.informed hlaw i p hp)
          hbrings]
        exact hallowed w i clock p hevent hp
      | arrive => exact hbrought.elim
      | read => exact hbrought.elim
      | retrieve => exact hbrought.elim
      | readChanges => exact hbrought.elim
      | crashInPrune => exact hbrought.elim
      | sweep => exact hbrought.elim

/-! ### Two providers -/

def tenantScope (tenant : String) : Meta := [("tenant", .string tenant)]

/-- A control key of a tenant, up to its fields. -/
def tenantKeyHead (tenant : String) : List Char :=
  Char.ofNat 123 :: (Json.writeString "scope" ++
    ':' :: noteFloats.write (.object (tenantScope tenant)))

/-- A reader of the scopes of two tenants. -/
def tenantTexts : ScopeTexts where
  floats := noteFloats
  readScope text :=
    if text = jsonText noteFloats (.object (tenantScope "a")) then .ok (tenantScope "a")
    else if text = jsonText noteFloats (.object (tenantScope "b")) then .ok (tenantScope "b")
    else .error "no tenant"
  readIdentity text :=
    if (tenantKeyHead "a").isPrefixOf text.toList then .ok (tenantScope "a")
    else if (tenantKeyHead "b").isPrefixOf text.toList then .ok (tenantScope "b")
    else .error "no tenant"

theorem tenantTexts_recalls {tenant : String} (h : tenant = "a" ∨ tenant = "b") :
    tenantTexts.Recalls (tenantScope tenant) := by
  have hkey : ∀ tenant fields,
      (ControlKey.text noteFloats ⟨tenantScope tenant, fields⟩).toList =
        tenantKeyHead tenant ++ noteFloats.writeFields false [("fields", .object fields)] := by
    intro tenant fields
    simp [ControlKey.text, jsonText, tenantKeyHead, Json.FloatText.write, Json.FloatText.writeFields]
  refine ⟨?_, fun fields _ => ?_⟩
  · rcases h with rfl | rfl <;> decide +kernel
  · simp only [tenantTexts, hkey]
    rcases h with rfl | rfl
    · rw [if_pos (List.isPrefixOf_iff_prefix.mpr (List.prefix_append _ _))]
    · rw [if_neg, if_pos (List.isPrefixOf_iff_prefix.mpr (List.prefix_append _ _))]
      rw [List.isPrefixOf_iff_prefix]
      intro hprefix
      have hlen : (tenantKeyHead "a").length = (tenantKeyHead "b").length := by decide +kernel
      have heq := List.prefix_of_prefix_length_le hprefix (List.prefix_append _ _) hlen.le
      exact absurd (heq.eq_of_length hlen) (by decide +kernel)

/-- A scope is selected from its fields alone. -/
theorem PolicySelector.scopeFor_eq (selector : PolicySelector) (metadata : Value) :
    selector.scopeFor metadata =
      (selector.config.metaFields.filter fun entry =>
        decide (entry.1 ∈ selector.config.scopeBy)).filterMap fun entry =>
          (entry.2.select metadata).map fun value => (entry.1, value) := by
  unfold scopeFor restrict LoadedConfig.present
  rw [List.filter_filterMap, List.filterMap_filter]
  refine List.filterMap_congr fun entry _ => ?_
  cases entry.2.select metadata with
  | none => simp
  | some value => simp [Option.filter]

theorem tenants_scopeFor {policy : EntityRules} {metadata : Value}
    (h : (tenants noteFloats).Selectable policy metadata) :
    ∃ tenant, (tenant = "a" ∨ tenant = "b") ∧
      (tenants noteFloats).scopeFor metadata = tenantScope tenant := by
  have hfields : (tenants noteFloats).scopeFor metadata =
      [("tenant", (⟨"/tenant", .bool false⟩ : MetaField))].filterMap fun entry =>
        (entry.2.select metadata).map fun value => (entry.1, value) := by
    rw [PolicySelector.scopeFor_eq]
    rfl
  obtain ⟨value, hvalue⟩ := Option.isSome_iff_exists.mp (h.scope "tenant" (by decide))
  obtain ⟨⟨name, field⟩, hfield, hentry⟩ := List.mem_filterMap.mp (Table.mem_of_lookup hvalue)
  obtain ⟨value', hselect, heq⟩ := Option.map_eq_some_iff.mp hentry
  obtain ⟨rfl, rfl⟩ := Prod.mk.inj heq
  have hvalid := h.valid _ hfield _ hselect
  obtain rfl : field = ⟨"/tenant", .bool false⟩ := by
    simpa [tenants, tenantConfig] using hfield
  dsimp only at hselect hvalid
  simp only [hfields, List.filterMap_cons, hselect, Option.map_some, List.filterMap_nil]
  by_cases ha : value' = .string "a"
  · exact ⟨"a", Or.inl rfl, by rw [ha]; rfl⟩
  · by_cases hb : value' = .string "b"
    · exact ⟨"b", Or.inr rfl, by rw [hb]; rfl⟩
    · simp [MetaField.validateValue, tenants, tenantSchemas, ha, hb, Except.mapError] at hvalid

def tenantRouter : ScopeRouter where
  providers := ⟨["main", "other"], by decide⟩
  default := "main"
  routes := [⟨tenantScope "b", "other"⟩]
  capabilities := ⟨true, true, true, true, true, true, true, true, true, true⟩
  default_mem := by decide
  routes_mem := by simp [tenantScope]

/-- Notes of two tenants, each with its own provider. -/
def tenantDeployment : Deployment where
  automerge := noAutomerge
  toText := fun _ => ""
  search := noteEnvironment.search
  fresh := drawnName
  actors := fun _ _ => "actor"
  selector := tenants noteFloats
  router := tenantRouter
  texts := tenantTexts
  floats_eq := rfl
  recalls policy metadata _ h := by
    obtain ⟨tenant, htenant, hscope⟩ := tenants_scopeFor h
    exact hscope ▸ tenantTexts_recalls htenant

def tenantMeta (tenant : String) : ReadMeta :=
  ⟨tenantScope tenant, ⟨⟨trivial, show List.Pairwise (· < ·) ["tenant"] by decide⟩,
    ⟨trivial, trivial⟩, trivial⟩⟩

/-- Each tenant created a note; the note of the second is written. -/
def twoTenants : Routed :=
  tenantDeployment.after [.arrive (tenantMeta "a") (.create "note" (some "n") .null) (readingsAt 5),
    .arrive (tenantMeta "b") (.create "note" (some "n") .null) (readingsAt 5),
    .advance 1 (clockAt 5), .advance 0 (clockAt 5), .advance 1 (clockAt 5)]

theorem twoTenants_reached : tenantDeployment.Reaches twoTenants := tenantDeployment.after_reaches _

example : (twoTenants.dbs "other").versions.length = 1 ∧ (twoTenants.dbs "main").versions = [] ∧
    twoTenants.processes.length = 2 := by decide +kernel


namespace Deployment

/-- **One provider's part of a run is a run.** The provider of a scope sees its mutations as they
are, and a step of a mutation is a step over that provider alone. -/
theorem routed_simulates (d : Deployment) (hlaw : d.automerge.Lawful) (w : Routed)
    (h : d.Reaches w) :
    (∀ name, ReachableWhen d.env (d.Local name) (d.view w name)) ∧
      ∀ (i : ℕ) p, w.processes[i]? = some p →
        ∃ name, d.home? p.request.selection.scope = some name ∧
          (d.view w name).processes[i]? = some p ∧ ∀ clock,
            d.step w (.advance i clock) =
              { dbs := Function.update w.dbs name (p.step d.env i clock (w.dbs name)).2
                processes := w.processes.set i (p.step d.env i clock (w.dbs name)).1 } := by
  have hkept := h.kept hlaw
  refine ⟨hkept.views, fun i p hp => ?_⟩
  obtain ⟨scope, -, hhome, hview⟩ := view_process hkept hp
  refine ⟨_, hhome, hview, fun clock => ?_⟩
  obtain ⟨name, hname, hstep⟩ := step_advance hlaw hkept hp clock
  rw [hhome, Option.some.injEq] at hname
  exact hname ▸ hstep

theorem twoTenants_simulated :
    (∀ name, ReachableWhen tenantDeployment.env (tenantDeployment.Local name)
      (tenantDeployment.view twoTenants name)) ∧
      ∀ (i : ℕ) p, twoTenants.processes[i]? = some p →
        ∃ name, tenantDeployment.home? p.request.selection.scope = some name ∧
          (tenantDeployment.view twoTenants name).processes[i]? = some p ∧ ∀ clock,
            tenantDeployment.step twoTenants (.advance i clock) =
              { dbs := Function.update twoTenants.dbs name
                  (p.step tenantDeployment.env i clock (twoTenants.dbs name)).2
                processes := twoTenants.processes.set i
                  (p.step tenantDeployment.env i clock (twoTenants.dbs name)).1 } :=
  routed_simulates tenantDeployment noAutomerge_lawful twoTenants twoTenants_reached

/-- **The router refuses no call of a mutation**, and sends it to the provider of its scope: all the
scopes of the call lead there. -/
theorem calls_routed (d : Deployment) (hlaw : d.automerge.Lawful) (w : Routed) (h : d.Reaches w)
    (i : ℕ) (p : Process) (hp : w.processes[i]? = some p) (call : ProviderCall)
    (hcall : p.providerCall d.env i = some call) :
    ∃ name ∈ d.router.providers.names, d.home? p.request.selection.scope = some name ∧
      call.op.route d.router d.texts = .ok name := by
  obtain ⟨name, hhome, hroute⟩ := call_route hlaw (h.kept hlaw) hp hcall
  obtain ⟨scope, -, hscope, -⟩ := view_process (h.kept hlaw) hp
  rw [hhome, Option.some.injEq] at hscope
  exact ⟨name, hscope ▸ d.router.providerOf_mem scope, hhome, hroute⟩

/-- The note of the first tenant is not written yet. -/
theorem twoTenants_routed : ∃ p call, twoTenants.processes[0]? = some p ∧
    p.providerCall tenantDeployment.env 0 = some call ∧
    ∃ name ∈ tenantDeployment.router.providers.names,
      tenantDeployment.home? p.request.selection.scope = some name ∧
        call.op.route tenantDeployment.router tenantDeployment.texts = .ok name := by
  have hcall : (twoTenants.processes[0]?.bind fun p =>
      p.providerCall tenantDeployment.env 0).isSome = true := by decide +kernel
  obtain ⟨call, hcall⟩ := Option.isSome_iff_exists.mp hcall
  obtain ⟨p, hp, hcall⟩ := Option.bind_eq_some_iff.mp hcall
  exact ⟨p, call, hp, hcall,
    calls_routed tenantDeployment noAutomerge_lawful twoTenants twoTenants_reached 0 p hp call hcall⟩

/-- **Every version and every change is where its scope belongs.** -/
theorem rows_routed (d : Deployment) (hlaw : d.automerge.Lawful) (w : Routed) (h : d.Reaches w)
    (name : String) :
    (∀ r ∈ (w.dbs name).versions, d.home? r.key.scopeJson = some name) ∧
      ∀ c ∈ (w.dbs name).changes, d.home? c.key.scopeJson = some name := by
  have hview := (h.kept hlaw).views name
  have hrows : ∀ r ∈ (w.dbs name).versions, d.home? r.key.scopeJson = some name :=
    hview.rows_inScopes (S := fun scope => d.home? scope = some name) hlaw
      fun w i clock p hlocal hp => hlocal i clock rfl p hp
  refine ⟨hrows, fun c hc => ?_⟩
  have hpublished := (hview.reachable.sound hlaw).inv.published
  obtain ⟨r, hr, hkey, -⟩ := (hpublished.changes c hc).1
  exact hkey ▸ hrows r hr

theorem twoTenants_placed :
    (∀ r ∈ (twoTenants.dbs "other").versions,
      tenantDeployment.home? r.key.scopeJson = some "other") ∧
      ∀ c ∈ (twoTenants.dbs "other").changes,
        tenantDeployment.home? c.key.scopeJson = some "other" :=
  rows_routed tenantDeployment noAutomerge_lawful twoTenants twoTenants_reached "other"

end Deployment

end Patchouli
