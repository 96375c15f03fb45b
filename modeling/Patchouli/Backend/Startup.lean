import Mathlib.Data.List.Count
import Mathlib.Data.List.Nodup
import Mathlib.Order.Basic
import Patchouli.Provider

/-!
# Starting and stopping providers

`BackendEngine::start` initializes the provider and checks its health; where the deployment is
routed, that provider is a `RoutingProvider`, which does so for each of its own. A failure at any
point undoes what was done: the router shuts down what it had initialized, the engine shuts down the
router when only the health check failed. Cleaning up goes on past its own failures.

What the providers answer is a parameter, and may depend on everything that was called before. The
calls are logged, and the results are about the log.

## Main definitions

* `LifecycleEvent`, `Answers`
* `RoutingProvider.initializeProviders`, `RoutingProvider.healthCheck`, `RoutingProvider.shutdown`
* `BackendEngine.start`

## Main results

* `startup_rolls_back`
-/

namespace Patchouli

/-! ### Calls -/

inductive LifecycleMethod where
  | initializeCall
  | healthCheckCall
  | shutdownCall
  deriving DecidableEq

/-- A call of a provider, with whether it succeeded. -/
structure LifecycleEvent where
  method : LifecycleMethod
  provider : String
  succeeded : Bool
  deriving DecidableEq

structure ProviderRecovery where
  generation : ℕ
  recoveredAfterUncleanShutdown : Bool
  deriving DecidableEq

/-- What the providers answer to a call, after the calls there were before it. -/
structure Answers where
  initializeAnswer : List LifecycleEvent → String → Except ProviderError ProviderRecovery
  healthCheckAnswer : List LifecycleEvent → String → Except ProviderError Unit
  shutdownAnswer : List LifecycleEvent → String → Except ProviderError Unit

/-- `ProviderError::context`. -/
def ProviderError.context (error : ProviderError) (context : String) : ProviderError :=
  ⟨error.reason, context ++ ": " ++ error.message⟩

/-- `EngineError`. -/
inductive EngineError where
  | provider (error : ProviderError)
  | capability (message : String)

/-- `Result::is_ok`. -/
def isOk {ε α : Type} : Except ε α → Bool
  | .ok _ => true
  | .error _ => false

section Lifecycle

variable (answers : Answers)

/-! ### The router -/

/-- The providers of a router, in the order of their names. -/
structure RoutingProvider where
  names : List String
  sorted : names.Pairwise (· < ·)

/-- Shut down providers one after the other, and collect why some could not be: the loop of
`shutdown`, and of the rollback in `initialize`. -/
def shutdownEach : List String → List LifecycleEvent →
    List (ProviderErrorReason × String) × List LifecycleEvent
  | [], log => ([], log)
  | name :: rest, log =>
    let answer := answers.shutdownAnswer log name
    let (errors, log) := shutdownEach rest (log ++ [⟨.shutdownCall, name, isOk answer⟩])
    match answer with
    | .ok _ => (errors, log)
    | .error error =>
      ((error.reason, "provider " ++ name.quote ++ " shutdown failed: " ++ error.message) :: errors,
        log)

/-- What a failed initialization says about its rollback. -/
def rollbackNote (errors : List (ProviderErrorReason × String)) : String :=
  if errors = [] then ""
  else "; initialization rollback also failed: " ++ "; ".intercalate (errors.map (·.2))

/-- The loop of `initialize`. -/
def initializeEach : List String → (initialized : List String) → ProviderRecovery →
    List LifecycleEvent → Except ProviderError ProviderRecovery × List LifecycleEvent
  | [], _, recovery, log => (.ok recovery, log)
  | name :: rest, initialized, recovery, log =>
    match answers.initializeAnswer log name with
    | .ok current =>
      initializeEach rest (initialized ++ [name])
        { generation := max recovery.generation current.generation
          recoveredAfterUncleanShutdown :=
            recovery.recoveredAfterUncleanShutdown || current.recoveredAfterUncleanShutdown }
        (log ++ [⟨.initializeCall, name, true⟩])
    | .error error =>
      let (errors, log) :=
        shutdownEach answers initialized.reverse (log ++ [⟨.initializeCall, name, false⟩])
      (.error ⟨error.reason, "provider " ++ name.quote ++ " initialization failed: " ++
        error.message ++ rollbackNote errors⟩, log)

/-- The loop of `health_check`. -/
def healthCheckEach : List String → List LifecycleEvent →
    Except ProviderError Unit × List LifecycleEvent
  | [], log => (.ok (), log)
  | name :: rest, log =>
    match answers.healthCheckAnswer log name with
    | .ok _ => healthCheckEach rest (log ++ [⟨.healthCheckCall, name, true⟩])
    | .error error =>
      (.error (error.context ("provider " ++ name.quote ++ " health check failed")),
        log ++ [⟨.healthCheckCall, name, false⟩])

namespace RoutingProvider

variable (router : RoutingProvider)

/-- `RoutingProvider::initialize`. -/
def initializeProviders (log : List LifecycleEvent) :
    Except ProviderError ProviderRecovery × List LifecycleEvent :=
  initializeEach answers router.names [] ⟨0, false⟩ log

/-- `RoutingProvider::health_check`. -/
def healthCheck (log : List LifecycleEvent) : Except ProviderError Unit × List LifecycleEvent :=
  healthCheckEach answers router.names log

/-- `RoutingProvider::shutdown`. -/
def shutdown (log : List LifecycleEvent) : Except ProviderError Unit × List LifecycleEvent :=
  let (errors, log) := shutdownEach answers router.names.reverse log
  match errors with
  | [] => (.ok (), log)
  | (reason, _) :: _ => (.error ⟨reason, "; ".intercalate (errors.map (·.2))⟩, log)

end RoutingProvider

/-! ### The engine -/

/-- `BackendEngine::start`, where the configuration's demands on the capabilities were checked with
the outcome `validated`. -/
def BackendEngine.start (validated : Except EngineError Unit) (router : RoutingProvider)
    (log : List LifecycleEvent) : Except EngineError ProviderRecovery × List LifecycleEvent :=
  match validated with
  | .error error => (.error error, log)
  | .ok _ =>
    match router.initializeProviders answers log with
    | (.error error, log) => (.error (.provider error), log)
    | (.ok recovery, log) =>
      match router.healthCheck answers log with
      | (.ok _, log) => (.ok recovery, log)
      | (.error healthError, log) =>
        match router.shutdown answers log with
        | (.ok _, log) => (.error (.provider healthError), log)
        | (.error shutdownError, log) =>
          (.error (.provider ⟨healthError.reason, healthError.message ++
            "; provider cleanup also failed: " ++ shutdownError.message⟩), log)

/-- `BackendEngine::shutdown`. -/
def BackendEngine.shutdown (router : RoutingProvider) (log : List LifecycleEvent) :
    Except EngineError Unit × List LifecycleEvent :=
  match router.shutdown answers log with
  | (.ok _, log) => (.ok (), log)
  | (.error error, log) => (.error (.provider error), log)

end Lifecycle

/-! ### Counting calls -/

/-- How often a method of a provider was called. -/
def attempts (log : List LifecycleEvent) (method : LifecycleMethod) (name : String) : ℕ :=
  log.countP fun event => event.method = method ∧ event.provider = name

theorem attempts_append (log log' : List LifecycleEvent) (method : LifecycleMethod)
    (name : String) :
    attempts (log ++ log') method name = attempts log method name + attempts log' method name :=
  List.countP_append

theorem attempts_eq_zero {log : List LifecycleEvent} {method : LifecycleMethod}
    (h : ∀ event ∈ log, event.method ≠ method) (name : String) : attempts log method name = 0 := by
  rw [attempts, List.countP_eq_zero]
  exact fun event hevent => by simp [h event hevent]

/-- Calls of one method, of each provider of a list. -/
def CallsEach (method : LifecycleMethod) (names : List String) (log : List LifecycleEvent) : Prop :=
  log.map (fun event => (event.method, event.provider)) = names.map fun name => (method, name)

namespace CallsEach

variable {method other : LifecycleMethod} {names : List String} {log : List LifecycleEvent}

/-- Each is called as often as it is listed, and nothing else is called. -/
theorem attempts_eq (h : CallsEach method names log) (name : String) :
    attempts log other name = if other = method then names.count name else 0 := by
  have hcount : attempts log other name =
      (log.map fun event => (event.method, event.provider)).count (other, name) := by
    rw [attempts, List.count, List.countP_map]
    refine List.countP_congr fun event _ => ?_
    simp [Prod.ext_iff]
  rw [hcount, h]
  split
  · rename_i hsame
    subst hsame
    exact List.count_map_of_injective _ _ (fun a b hab => (Prod.mk.inj hab).2) _
  · rename_i hne
    refine List.count_eq_zero.mpr fun hmem => ?_
    obtain ⟨_, -, heq⟩ := List.mem_map.mp hmem
    exact hne (Prod.mk.inj heq).1.symm

/-- Nothing but this method is called. -/
theorem method_eq (h : CallsEach method names log) {event : LifecycleEvent} (hevent : event ∈ log) :
    event.method = method := by
  have hpair : (event.method, event.provider) ∈ names.map fun name => (method, name) :=
    h ▸ List.mem_map_of_mem hevent
  obtain ⟨_, -, heq⟩ := List.mem_map.mp hpair
  exact (Prod.mk.inj heq).1.symm

theorem attempts_self (h : CallsEach method names log) (hnodup : names.Nodup) {name : String}
    (hname : name ∈ names) : attempts log method name = 1 := by
  rw [h.attempts_eq, if_pos rfl, List.count_eq_one_of_mem hnodup hname]

end CallsEach

/-! ### The loops -/

section Loops

variable {answers : Answers} {names : List String} {log : List LifecycleEvent}

/-- **Cleaning up goes on.** Every provider of the list is shut down, whatever the others answer. -/
theorem shutdownEach_calls : ∃ calls, (shutdownEach answers names log).2 = log ++ calls ∧
    CallsEach .shutdownCall names calls := by
  induction names generalizing log with
  | nil => exact ⟨[], by simp [shutdownEach], rfl⟩
  | cons name rest ih =>
    obtain ⟨calls, hlog, hcalls⟩ :=
      @ih (log ++ [⟨.shutdownCall, name, isOk (answers.shutdownAnswer log name)⟩])
    refine ⟨⟨.shutdownCall, name, isOk (answers.shutdownAnswer log name)⟩ :: calls, ?_, ?_⟩
    · rw [shutdownEach]
      dsimp only
      split <;> simpa using hlog
    · simp only [CallsEach, List.map_cons] at hcalls ⊢
      rw [hcalls]

/-- What the initialization loop calls: all of the list with success, or a part of it, then one that
fails, and then the shutdowns of all that were initialized, the last one first. -/
theorem initializeEach_calls {initialized : List String} {recovery : ProviderRecovery} :
    match initializeEach answers names initialized recovery log with
    | (.ok _, after) => ∃ calls, after = log ++ calls ∧ CallsEach .initializeCall names calls ∧
        ∀ event ∈ calls, event.succeeded = true
    | (.error _, after) => ∃ before name rest started cleaned, names = before ++ name :: rest ∧
        after = log ++ (started ++ ⟨.initializeCall, name, false⟩ :: cleaned) ∧
        CallsEach .initializeCall before started ∧ (∀ event ∈ started, event.succeeded = true) ∧
        CallsEach .shutdownCall (initialized ++ before).reverse cleaned := by
  induction names generalizing initialized recovery log with
  | nil => exact ⟨[], by simp, rfl, by simp⟩
  | cons name rest ih =>
    rw [initializeEach]
    cases hanswer : answers.initializeAnswer log name with
    | error error =>
      obtain ⟨cleaned, hlog, hcalls⟩ := @shutdownEach_calls answers initialized.reverse
        (log ++ [⟨.initializeCall, name, false⟩])
      exact ⟨[], name, rest, [], cleaned, rfl, by simpa using hlog, rfl, by simp,
        by simpa using hcalls⟩
    | ok current =>
      have hrest := @ih (log ++ [⟨.initializeCall, name, true⟩]) (initialized ++ [name])
        { generation := max recovery.generation current.generation
          recoveredAfterUncleanShutdown :=
            recovery.recoveredAfterUncleanShutdown || current.recoveredAfterUncleanShutdown }
      dsimp only
      generalize initializeEach answers rest _ _ _ = outcome at hrest ⊢
      obtain ⟨result, after⟩ := outcome
      cases result with
      | ok =>
        obtain ⟨calls, rfl, hcalls, hsucceeded⟩ := hrest
        refine ⟨⟨.initializeCall, name, true⟩ :: calls, by simp, ?_, by simpa using hsucceeded⟩
        simp only [CallsEach, List.map_cons] at hcalls ⊢
        rw [hcalls]
      | error =>
        obtain ⟨before, failed, later, started, cleaned, rfl, rfl, hstarted, hsucceeded, hcleaned⟩ :=
          hrest
        refine ⟨name :: before, failed, later, ⟨.initializeCall, name, true⟩ :: started, cleaned, rfl,
          by simp, ?_, by simpa using hsucceeded, by simpa using hcleaned⟩
        simp only [CallsEach, List.map_cons] at hstarted ⊢
        rw [hstarted]

/-- Health checks are all that a health check calls. -/
theorem healthCheckEach_calls : ∃ calls, (healthCheckEach answers names log).2 = log ++ calls ∧
    ∀ event ∈ calls, event.method = .healthCheckCall := by
  induction names generalizing log with
  | nil => exact ⟨[], by simp [healthCheckEach], by simp⟩
  | cons name rest ih =>
    rw [healthCheckEach]
    cases answers.healthCheckAnswer log name with
    | error error => exact ⟨_, rfl, by simp⟩
    | ok =>
      obtain ⟨calls, hlog, hcalls⟩ := @ih (log ++ [⟨.healthCheckCall, name, true⟩])
      exact ⟨⟨.healthCheckCall, name, true⟩ :: calls, by simpa using hlog, by simpa using hcalls⟩

theorem RoutingProvider.nodup (router : RoutingProvider) : router.names.Nodup :=
  router.sorted.imp fun h => ne_of_lt h

theorem RoutingProvider.shutdown_calls {router : RoutingProvider} :
    ∃ calls, (router.shutdown answers log).2 = log ++ calls ∧
      CallsEach .shutdownCall router.names.reverse calls := by
  obtain ⟨calls, hlog, hcalls⟩ := @shutdownEach_calls answers router.names.reverse log
  refine ⟨calls, ?_, hcalls⟩
  rw [← hlog, RoutingProvider.shutdown]
  dsimp only
  split <;> rfl

/-- Of calls that succeeded, exactly those of the list are found. -/
theorem CallsEach.mem_iff {method : LifecycleMethod} (h : CallsEach method names log)
    (hsucceeded : ∀ event ∈ log, event.succeeded = true) (name : String) :
    ⟨method, name, true⟩ ∈ log ↔ name ∈ names := by
  constructor
  · intro hmem
    have hpair : (method, name) ∈ names.map fun name => (method, name) :=
      h ▸ List.mem_map_of_mem hmem
    obtain ⟨_, hname, heq⟩ := List.mem_map.mp hpair
    exact (Prod.mk.inj heq).2 ▸ hname
  · intro hname
    have hpair : (method, name) ∈ log.map fun event => (event.method, event.provider) := by
      rw [h]
      exact List.mem_map_of_mem hname
    obtain ⟨event, hmem, heq⟩ := List.mem_map.mp hpair
    obtain ⟨rfl, rfl⟩ := Prod.mk.inj heq
    have := hsucceeded event hmem
    rwa [← this]

end Loops

/-! ### Starting -/

/-- **Startup rolls back.** When the engine fails to start, every provider whose initialization had
succeeded was shut down once, and no other was, whatever the shutdowns answered. When it starts,
every provider was initialized once and none was shut down, and stopping it later calls the shutdown
of every provider once. -/
theorem startup_rolls_back (answers : Answers) (validated : Except EngineError Unit)
    (router : RoutingProvider) :
    match BackendEngine.start answers validated router [] with
    | (.error _, log) => ∀ name, attempts log .shutdownCall name =
        if ⟨.initializeCall, name, true⟩ ∈ log then 1 else 0
    | (.ok _, log) =>
      (∀ name ∈ router.names, attempts log .initializeCall name = 1 ∧
        ⟨.initializeCall, name, true⟩ ∈ log) ∧
      (∀ name, attempts log .shutdownCall name = 0) ∧
      ∀ later, ∃ calls, (BackendEngine.shutdown answers router later).2 = later ++ calls ∧
        ∀ name ∈ router.names, attempts calls .shutdownCall name = 1 := by
  have hnodup := router.nodup
  cases validated with
  | error error => exact fun name => by simp [attempts]
  | ok =>
    have hinit := @initializeEach_calls answers router.names [] [] ⟨0, false⟩
    simp only [BackendEngine.start, RoutingProvider.initializeProviders]
    generalize initializeEach answers router.names [] ⟨0, false⟩ [] = outcome at hinit ⊢
    obtain ⟨result, log⟩ := outcome
    cases result with
    | error error =>
      obtain ⟨before, failed, rest, started, cleaned, hnames, hlog, hstarted, hsucceeded, hcleaned⟩ :=
        hinit
      have hbefore : before.Nodup := (List.nodup_append.mp (hnames ▸ hnodup)).1
      intro name
      have hfound : ⟨.initializeCall, name, true⟩ ∈ log ↔ name ∈ before := by
        rw [← hstarted.mem_iff hsucceeded, hlog]
        simp only [List.nil_append, List.mem_append, List.mem_cons, LifecycleEvent.mk.injEq,
          reduceCtorEq, and_false, false_or, or_iff_left_iff_imp]
        exact fun hmem => nomatch hcleaned.method_eq hmem
      have hone : attempts [⟨.initializeCall, failed, false⟩] .shutdownCall name = 0 := rfl
      simp only [hfound]
      rw [hlog, List.nil_append, ← List.singleton_append, attempts_append, attempts_append,
        hstarted.attempts_eq, hcleaned.attempts_eq, hone, if_neg (by decide), if_pos rfl,
        List.nil_append, List.count_reverse, hbefore.count, Nat.zero_add, Nat.zero_add]
    | ok recovery =>
      obtain ⟨calls, hlog, hcalls, hsucceeded⟩ := hinit
      rw [List.nil_append] at hlog
      obtain ⟨checks, hchecked, hchecks⟩ := @healthCheckEach_calls answers router.names log
      have hother : ∀ method, method ≠ .healthCheckCall → ∀ name, attempts checks method name = 0 :=
        fun method hmethod => attempts_eq_zero fun event hevent =>
          (hchecks event hevent).symm ▸ Ne.symm hmethod
      have hnone : ∀ name, attempts (log ++ checks) .shutdownCall name = 0 := by
        intro name
        rw [attempts_append, hlog, hcalls.attempts_eq, if_neg (by decide), hother _ (by decide)]
      have hfound : ∀ name, ⟨.initializeCall, name, true⟩ ∈ log ++ checks ↔ name ∈ router.names := by
        intro name
        rw [← hcalls.mem_iff hsucceeded, hlog, List.mem_append, or_iff_left_iff_imp]
        exact fun hmem => nomatch hchecks _ hmem
      simp only [RoutingProvider.healthCheck]
      generalize healthCheckEach answers router.names log = outcome at hchecked ⊢
      obtain ⟨result, log'⟩ := outcome
      obtain rfl : log' = log ++ checks := hchecked
      cases result with
      | ok =>
        refine ⟨fun name hname => ⟨?_, (hfound name).mpr hname⟩, hnone, fun later => ?_⟩
        · rw [attempts_append, hlog, hcalls.attempts_self hnodup hname, hother _ (by decide)]
        · obtain ⟨stopped, hstopped, hstops⟩ :=
            @RoutingProvider.shutdown_calls answers later router
          refine ⟨stopped, ?_, fun name hname => ?_⟩
          · rw [← hstopped, BackendEngine.shutdown]
            split <;> simp_all
          · exact hstops.attempts_self (List.nodup_reverse.mpr hnodup) (List.mem_reverse.mpr hname)
      | error error =>
        obtain ⟨stopped, hstopped, hstops⟩ :=
          @RoutingProvider.shutdown_calls answers (log ++ checks) router
        dsimp only
        generalize router.shutdown answers (log ++ checks) = stop at hstopped ⊢
        obtain ⟨answer, final⟩ := stop
        obtain rfl : final = log ++ checks ++ stopped := hstopped
        have hrolled : ∀ name, attempts (log ++ checks ++ stopped) .shutdownCall name =
            if ⟨.initializeCall, name, true⟩ ∈ log ++ checks ++ stopped then 1 else 0 := by
          intro name
          have hfound' : ⟨.initializeCall, name, true⟩ ∈ log ++ checks ++ stopped ↔
              name ∈ router.names := by
            rw [← hfound name, List.mem_append, or_iff_left_iff_imp]
            exact fun hmem => nomatch hstops.method_eq hmem
          simp only [hfound']
          rw [attempts_append, hnone, hstops.attempts_eq, if_pos rfl, List.count_reverse,
            hnodup.count, Nat.zero_add]
        cases answer <;> exact hrolled

end Patchouli
