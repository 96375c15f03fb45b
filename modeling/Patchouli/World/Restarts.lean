import Patchouli.Sqlite.Lifecycle
import Patchouli.World.Effects

/-!
# Providers that come and go

The file outlives the providers. A provider locks it when it is opened, and a second one is refused
until the first has let go: at the end of `shutdown`, or with its process. A call clones the
connection, and its transaction runs when the thread of the connection comes to it; a call that was
cloned before `shutdown` took the connection can still run after that, until the connection is
closed. A process that ends takes its calls with it, and what was committed stays.

What an engine does between the calls needs no provider. So the mutations in flight are those of
`World`, each with the provider it calls, and a mutation whose provider is gone never moves again.
Left out are the answer such a mutation gets (`SQLite provider is shut down`), the permissions of
the files, and a loss of power, which may undo commits that were not yet written through.

## Main definitions

* `ProviderStage`, `Call`, `SqliteProvider` — a provider and the calls that wait for its thread
* `Site`, `SiteEvent`, `Site.step`
* `SiteReachable` — any number of providers that come and go
* `Site.world` — what is left when they are forgotten

## Main results

* `Site.step_stepped` — what a step can do
* `SiteReachable.world`, `SiteRuns.world` — restarts are not seen
-/

namespace Patchouli

open Db

/-! ### Providers -/

/-- How far a provider is with its connection and its lock. -/
inductive ProviderStage where
  /-- Both are there. -/
  | running
  /-- `shutdown` took the connection, and its transaction waits. -/
  | persisting
  /-- The transaction is over, and the connection is to be closed. -/
  | closing
  /-- The connection is closed. -/
  | closed
  /-- The lock is dropped. -/
  | released
  /-- `shutdown` gave up and left the lock where it was. -/
  | stranded
  /-- The process is gone. -/
  | crashed
  deriving DecidableEq

/-- The lock of the file is held. -/
def ProviderStage.Locked (stage : ProviderStage) : Prop := stage ≠ .released ∧ stage ≠ .crashed

/-- The thread of the connection runs what it is given. -/
def ProviderStage.Served (stage : ProviderStage) : Prop :=
  stage = .running ∨ stage = .persisting ∨ stage = .closing ∨ stage = .stranded

instance (stage : ProviderStage) : Decidable stage.Locked :=
  inferInstanceAs (Decidable (stage ≠ .released ∧ stage ≠ .crashed))

instance (stage : ProviderStage) : Decidable stage.Served :=
  inferInstanceAs (Decidable (stage = .running ∨ stage = .persisting ∨ stage = .closing ∨
    stage = .stranded))

theorem ProviderStage.Served.locked {stage : ProviderStage} (h : stage.Served) : stage.Locked := by
  rcases h with rfl | rfl | rfl | rfl <;> decide

/-- A call that holds the connection. -/
inductive Call where
  | engine (event : Event)
  | initializeCall (startedAtUnixMs : ℕ)
  | shutdownCall (shutdownAtUnixMs busy : ℕ)

/-- An opened provider, with the calls that wait for its thread. -/
structure SqliteProvider where
  stage : ProviderStage
  calls : List Call

/-- What the file was told about its runs, in the order in which it was told. -/
inductive RunRecord where
  | initialized (provider : ℕ) (recovery : ProviderRecovery)
  | ended (provider : ℕ) (succeeded : Bool)
  deriving DecidableEq

/-- The provider that told it. -/
def RunRecord.provider : RunRecord → ℕ
  | initialized provider _ => provider
  | ended provider _ => provider

/-! ### Sites -/

/-- A file, the providers that were opened on it, and the mutations of their engines, with the
provider that each one calls. -/
structure Site where
  storage : Storage
  providers : List SqliteProvider
  processes : List Process
  hosts : List ℕ
  records : List RunRecord

/-- What can happen. A provider that is dropped when no call is left ends like its process. -/
inductive SiteEvent where
  | openProvider
  | arrive (provider : ℕ) (request : Request) (readings : Readings)
  | call (provider : ℕ) (call : Call)
  | perform (provider : ℕ) (k : ℕ)
  | shutdown (provider : ℕ) (shutdownAtUnixMs : Option ℕ) (busy : ℕ)
  | abandon (provider : ℕ)
  | close (provider : ℕ)
  | unlock (provider : ℕ)
  | crash (provider : ℕ)

namespace Site

/-- A file that no provider has opened yet. -/
def start (userVersion : ℤ) : Site := ⟨Storage.untouched userVersion, [], [], [], []⟩

variable (env : Environment) (s : Site)

/-- The world without the providers. -/
def world : World := ⟨s.storage.db, s.processes⟩

/-- Replace a provider. -/
def put (h : ℕ) (provider : SqliteProvider) : Site :=
  { s with providers := s.providers.set h provider }

/-- Some provider holds the lock. -/
def Locked : Prop := ∃ provider ∈ s.providers, provider.stage.Locked

instance : Decidable s.Locked :=
  inferInstanceAs (Decidable (∃ provider ∈ s.providers, provider.stage.Locked))

/-- A mutation calls its own provider, and does not arrive by a call. -/
def MayCall (h : ℕ) : Call → Prop
  | .engine (.arrive _ _) => False
  | .engine (.advance i _) => s.hosts[i]? = some h
  | .shutdownCall _ _ => False
  | _ => True

instance (h : ℕ) : (call : Call) → Decidable (s.MayCall h call)
  | .engine (.arrive _ _) => isFalse id
  | .engine (.advance i _) => inferInstanceAs (Decidable (s.hosts[i]? = some h))
  | .engine (.read _ _ _ _ _) => isTrue trivial
  | .engine (.retrieve _ _ _ _ _) => isTrue trivial
  | .engine (.readChanges _) => isTrue trivial
  | .engine (.crashInPrune _) => isTrue trivial
  | .engine (.sweep _) => isTrue trivial
  | .initializeCall _ => isTrue trivial
  | .shutdownCall _ _ => isFalse id

/-- The thread of the connection runs a call. -/
def run (h : ℕ) : Call → Site
  | .engine event =>
    if s.storage.runtime.isSome then
      let w := s.world.step env event
      { s with storage := { s.storage with db := w.db }, processes := w.processes }
    else s
  | .initializeCall startedAt =>
    match s.storage.initializeProvider startedAt with
    | (.ok recovery, storage) =>
      { s with storage, records := s.records ++ [.initialized h recovery] }
    | (.error _, _) => s
  | .shutdownCall shutdownAt busy =>
    match s.storage.shutdownInTransaction shutdownAt with
    | .ok _ =>
      let (outcome, storage) := s.storage.shutdownProvider shutdownAt busy
      { s with storage, records := s.records ++ [.ended h (isOk outcome)] }
    | .error _ => s

/-- The stage of a provider after a call of it ran. -/
def stageAfter (stage : ProviderStage) : Call → ProviderStage
  | .shutdownCall _ _ => if stage = .persisting then .closing else stage
  | _ => stage

/-- What happens to a provider, if it is there. -/
def withProvider (h : ℕ) (happens : SqliteProvider → Site) : Site :=
  match s.providers[h]? with
  | some provider => happens provider
  | none => s

/-- One event. -/
def step : SiteEvent → Site
  | .openProvider =>
    if s.Locked then s else { s with providers := s.providers ++ [⟨.running, []⟩] }
  | .arrive h request readings => s.withProvider h fun provider =>
    if provider.stage ≠ .crashed ∧ request.selection.KeyInScope env.scopeOfKey then
      { s with
        processes := s.processes ++ [request.arrive env readings]
        hosts := s.hosts ++ [h] }
    else s
  | .call h call => s.withProvider h fun provider =>
    if provider.stage = .running ∧ s.MayCall h call then
      s.put h { provider with calls := provider.calls ++ [call] }
    else s
  | .perform h k => s.withProvider h fun provider =>
    match provider.calls[k]? with
    | some call =>
      if provider.stage.Served then
        (s.put h ⟨stageAfter provider.stage call, provider.calls.eraseIdx k⟩).run env h call
      else s
    | none => s
  | .shutdown h shutdownAt busy => s.withProvider h fun provider =>
    if provider.stage = .running then
      match shutdownAt with
      | some shutdownAt => s.put h ⟨.persisting, provider.calls ++ [.shutdownCall shutdownAt busy]⟩
      | none => s.put h { provider with stage := .stranded }
    else s
  | .abandon h => s.withProvider h fun provider =>
    if provider.stage = .persisting ∨ provider.stage = .closing then
      s.put h { provider with stage := .stranded }
    else s
  | .close h => s.withProvider h fun provider =>
    if provider.stage = .closing then s.put h { provider with stage := .closed } else s
  | .unlock h => s.withProvider h fun provider =>
    if provider.stage = .closed then s.put h { provider with stage := .released } else s
  | .crash h => s.withProvider h fun _ => s.put h ⟨.crashed, []⟩

/-- The event that a call is for the tables: none, where it fails as a whole. -/
def callEvent : Call → Option Event
  | .engine event => if s.storage.runtime.isSome then some event else none
  | .initializeCall startedAt =>
    if isOk (s.storage.initializeInTransaction startedAt) then some (.sweep startedAt) else none
  | .shutdownCall shutdownAt _ =>
    if isOk (s.storage.shutdownInTransaction shutdownAt) then some (.sweep shutdownAt) else none

/-- The event that a step is for the tables and the mutations. -/
def worldEvent : SiteEvent → Option Event
  | .arrive h request readings =>
    if s.providers[h]?.any (·.stage ≠ .crashed) then some (.arrive request readings) else none
  | .perform h k =>
    match s.providers[h]? with
    | some provider =>
      if provider.stage.Served then provider.calls[k]?.bind s.callEvent else none
    | none => none
  | _ => none

end Site

/-- The sites reached, from a file with a version in its header, by runs whose events on the tables
all meet a condition. -/
inductive SiteReachable (env : Environment) (allowed : World → Event → Prop) (userVersion : ℤ) :
    Site → Prop
  | start : SiteReachable env allowed userVersion (Site.start userVersion)
  | step {s : Site} (event : SiteEvent) (h : SiteReachable env allowed userVersion s)
      (hallowed : ∀ e ∈ s.worldEvent event, allowed s.world e) :
      SiteReachable env allowed userVersion (s.step env event)

/-- What happens to a site over time. -/
abbrev SiteRuns (env : Environment) : Site → Site → Prop :=
  Relation.ReflTransGen fun s s' => ∃ event, s' = s.step env event

/-! ### What a step can do -/

/-- What a provider can become by itself: it takes a call of its own, or goes on towards its end. -/
structure SqliteProvider.Becomes (s : Site) (h : ℕ) (old new : SqliteProvider) : Prop where
  locked : new.stage.Locked → old.stage.Locked
  calls : ∀ call ∈ new.calls,
    call ∈ old.calls ∨ s.MayCall h call ∨ ∃ t busy, call = .shutdownCall t busy

/-- **What a step can do.** -/
inductive Site.Stepped (env : Environment) (s : Site) : Site → Prop
  | kept : Stepped env s s
  | opened (hfree : ¬ s.Locked) :
      Stepped env s { s with providers := s.providers ++ [⟨.running, []⟩] }
  | arrived {h : ℕ} {provider : SqliteProvider} {request : Request} {readings : Readings}
      (hget : s.providers[h]? = some provider) :
      Stepped env s { s with
        processes := s.processes ++ [request.arrive env readings]
        hosts := s.hosts ++ [h] }
  | turned {h : ℕ} {old new : SqliteProvider} (hget : s.providers[h]? = some old)
      (hbecomes : old.Becomes s h new) : Stepped env s (s.put h new)
  | performed {h k : ℕ} {old : SqliteProvider} {call : Call} (hget : s.providers[h]? = some old)
      (hcall : old.calls[k]? = some call) (hserved : old.stage.Served) :
      Stepped env s
        ((s.put h ⟨Site.stageAfter old.stage call, old.calls.eraseIdx k⟩).run env h call)

namespace Site

variable {env : Environment} {s s' : Site} {h : ℕ}

theorem stageAfter_locked {stage : ProviderStage} {call : Call}
    (h : (stageAfter stage call).Locked) : stage.Locked := by
  cases call with
  | engine event => exact h
  | initializeCall t => exact h
  | shutdownCall t busy =>
    simp only [stageAfter] at h
    split at h
    · rename_i hstage
      rw [hstage]
      decide
    · exact h

theorem withProvider_stepped {happens : SqliteProvider → Site}
    (hhappens : ∀ provider, s.providers[h]? = some provider → Stepped env s (happens provider)) :
    Stepped env s (s.withProvider h happens) := by
  rw [withProvider]
  cases hget : s.providers[h]? with
  | none => exact .kept
  | some provider => exact hhappens provider hget

theorem step_stepped (event : SiteEvent) : Stepped env s (s.step env event) := by
  cases event with
  | openProvider =>
    simp only [step]
    split
    · exact .kept
    · rename_i hfree
      exact .opened hfree
  | arrive h request readings =>
    refine withProvider_stepped fun provider hget => ?_
    split
    · exact .arrived hget
    · exact .kept
  | call h call =>
    refine withProvider_stepped fun provider hget => ?_
    split
    · rename_i hmay
      refine .turned hget ⟨id, fun other hother => ?_⟩
      rcases List.mem_append.mp hother with hold | hnew
      · exact .inl hold
      · exact .inr (.inl (List.mem_singleton.mp hnew ▸ hmay.2))
    · exact .kept
  | perform h k =>
    refine withProvider_stepped fun provider hget => ?_
    cases hcall : provider.calls[k]? with
    | none => exact .kept
    | some call =>
      dsimp only
      split
      · rename_i hserved
        exact .performed hget hcall hserved
      · exact .kept
  | shutdown h shutdownAt busy =>
    refine withProvider_stepped fun provider hget => ?_
    split
    · rename_i hrunning
      have hlocked : provider.stage.Locked := by
        rw [hrunning]
        decide
      cases shutdownAt with
      | none => exact .turned hget ⟨fun _ => hlocked, fun _ => .inl⟩
      | some shutdownAt =>
        refine .turned hget ⟨fun _ => hlocked, fun other hother => ?_⟩
        rcases List.mem_append.mp hother with hold | hnew
        · exact .inl hold
        · exact .inr (.inr ⟨shutdownAt, busy, List.mem_singleton.mp hnew⟩)
    · exact .kept
  | abandon h =>
    refine withProvider_stepped fun provider hget => ?_
    split
    · rename_i hstage
      have hlocked : provider.stage.Locked := by
        rcases hstage with hstage | hstage <;> rw [hstage] <;> decide
      exact .turned hget ⟨fun _ => hlocked, fun _ => .inl⟩
    · exact .kept
  | close h =>
    refine withProvider_stepped fun provider hget => ?_
    split
    · rename_i hstage
      have hlocked : provider.stage.Locked := by
        rw [hstage]
        decide
      exact .turned hget ⟨fun _ => hlocked, fun _ => .inl⟩
    · exact .kept
  | unlock h =>
    refine withProvider_stepped fun provider hget => ?_
    split
    · exact .turned hget ⟨fun hlocked => absurd rfl hlocked.1, fun _ => .inl⟩
    · exact .kept
  | crash h =>
    refine withProvider_stepped fun provider hget => ?_
    exact .turned hget ⟨fun hlocked => absurd rfl hlocked.2, fun _ hcall => by cases hcall⟩

end Site

/-! ### The world without the providers -/

namespace Site

variable {env : Environment} {s s' : Site} {h : ℕ}

/-- A call is its event for the tables. -/
theorem run_world (call : Call) : (s.run env h call).world =
    match s.callEvent call with
    | some event => s.world.step env event
    | none => s.world := by
  cases call with
  | engine event =>
    simp only [run, callEvent]
    split
    · rfl
    · rfl
  | initializeCall startedAt =>
    simp only [run, callEvent, Storage.initializeProvider]
    cases hinit : s.storage.initializeInTransaction startedAt with
    | error error => rfl
    | ok result =>
      obtain ⟨recovery, storage⟩ := result
      obtain ⟨-, -, -, -, -, hexpire⟩ := Storage.initializeInTransaction_eq_ok.mp hinit
      show World.mk storage.db s.processes = s.world.step env (.sweep startedAt)
      simp only [World.step, world, Storage.sweep_of_expire hexpire]
  | shutdownCall shutdownAt busy =>
    simp only [run, callEvent]
    cases hdown : s.storage.shutdownInTransaction shutdownAt with
    | error error => rfl
    | ok storage =>
      obtain ⟨-, -, hexpire⟩ := Storage.shutdownInTransaction_eq_ok.mp hdown
      have hstorage : (s.storage.shutdownProvider shutdownAt busy).2 = storage := by
        rw [Storage.shutdownProvider, hdown]
        dsimp only
        split <;> rfl
      show World.mk (s.storage.shutdownProvider shutdownAt busy).2.db s.processes =
        s.world.step env (.sweep shutdownAt)
      simp only [hstorage, World.step, world, Storage.sweep_of_expire hexpire]

theorem withProvider_world {happens : SqliteProvider → Site} {w : World}
    (hnone : s.providers[h]? = none → s.world = w)
    (hhappens : ∀ provider, s.providers[h]? = some provider → (happens provider).world = w) :
    (s.withProvider h happens).world = w := by
  rw [withProvider]
  cases hget : s.providers[h]? with
  | none => exact hnone hget
  | some provider => exact hhappens provider hget

/-- What only concerns the providers leaves the world alone. -/
theorem withProvider_world_eq {happens : SqliteProvider → Site}
    (hhappens : ∀ provider, (happens provider).world = s.world) :
    (s.withProvider h happens).world = s.world :=
  withProvider_world (fun _ => rfl) fun provider _ => hhappens provider

/-- **A step is one event of the world, or none.** -/
theorem step_world (event : SiteEvent) : (s.step env event).world =
    match s.worldEvent event with
    | some event => s.world.step env event
    | none => s.world := by
  cases event with
  | openProvider =>
    simp only [step, worldEvent]
    split <;> rfl
  | arrive h request readings =>
    refine withProvider_world (fun hnone => ?_) fun provider hget => ?_
    · simp only [worldEvent, hnone, Option.any_none, Bool.false_eq_true, if_false]
    · by_cases halive : provider.stage ≠ .crashed
      · simp only [worldEvent, hget, Option.any_some, halive, ne_eq, not_false_eq_true,
          decide_true, if_true, true_and, World.step]
        split <;> rfl
      · simp only [worldEvent, hget, Option.any_some, halive, decide_false, Bool.false_eq_true,
          if_false, false_and]
  | perform h k =>
    refine withProvider_world (fun hnone => ?_) fun provider hget => ?_
    · simp only [worldEvent, hnone]
    · cases hcall : provider.calls[k]? with
      | none =>
        simp only [worldEvent, hget, hcall, Option.bind_none, ite_self]
      | some call =>
        by_cases hserved : provider.stage.Served
        · simp only [worldEvent, hget, hcall, hserved, if_true, Option.bind_some]
          exact run_world call
        · simp only [worldEvent, hget, hserved, if_false]
  | call h call =>
    refine withProvider_world_eq fun provider => ?_
    split <;> rfl
  | shutdown h shutdownAt busy =>
    refine withProvider_world_eq fun provider => ?_
    split
    · cases shutdownAt <;> rfl
    · rfl
  | abandon h =>
    refine withProvider_world_eq fun provider => ?_
    split <;> rfl
  | close h =>
    refine withProvider_world_eq fun provider => ?_
    split <;> rfl
  | unlock h =>
    refine withProvider_world_eq fun provider => ?_
    split <;> rfl
  | crash h => exact withProvider_world_eq fun _ => rfl

end Site

section Runs

variable {env : Environment} {allowed : World → Event → Prop} {userVersion : ℤ} {s s' : Site}

/-- **Restarts are not seen.** What the tables and the mutations go through at a site, they go
through with one provider that never stops. -/
theorem SiteReachable.world (h : SiteReachable env allowed userVersion s) :
    ReachableWhen env allowed s.world := by
  induction h with
  | start => exact .start
  | @step s event hbefore hallowed ih =>
    rw [Site.step_world]
    cases hevent : s.worldEvent event with
    | none => exact ih
    | some e => exact .step e ih (hallowed e hevent)

theorem SiteRuns.world (h : SiteRuns env s s') : Runs env s.world s'.world := by
  induction h with
  | refl => exact .refl
  | @tail mid last hbefore hstep ih =>
    obtain ⟨event, rfl⟩ := hstep
    rw [Site.step_world]
    cases hevent : mid.worldEvent event with
    | none => exact ih
    | some e => exact ih.tail ⟨e, rfl⟩

end Runs

end Patchouli
