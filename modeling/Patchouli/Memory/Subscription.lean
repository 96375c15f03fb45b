import Mathlib.Order.Lattice
import Mathlib.Data.List.Pairwise
import Patchouli.Lib.Json

/-!
# The subscription worker

`runSubscriptionWorker` and `runSubscriptionAttempt` of `memory.ts`: a consumer follows the changes
of one plugin and keeps its position in a cursor store. An attempt asks the plugin for what follows
the cursor it has, saves the boundary the plugin answers with, and lets the changes through its
pipeline: every change has a promise that starts when the promise before it has settled, hands the
change to the handler, and saves its cursor. Changes can arrive before the boundary is saved; they
wait for it.

Every `await` is a place where the handler, the cursor store or the plugin can fail, where the
subscription can be aborted, and where the process can crash. A write that reached the store may
still be reported as a failure.

What the plugin does is assumed: it delivers, in order, the changes strictly after the cursor it was
asked for, and its boundary is that cursor; if it was asked for none, the boundary is the end of the
feed when it accepts.

## Main definitions

* `Feed` — the changes of a plugin
* `Attempt`, `Processing` — the pipeline
* `Subscriber.step` — one event
* `Subscriber.AtLeastOnce`, `Attempt.Orderly` — what the consumer relies on
-/

namespace Patchouli

/-- `MemoryChange`. -/
structure MemoryChange (Cursor : Type) where
  cursor : Cursor
  memoryId : Option String
  metadata : Option Json.Value

/-! ### The plugin -/

/-- The changes of a plugin that match a subscription, in the order of their cursors, and the end of
the feed. -/
structure Feed (Cursor : Type) [LinearOrder Cursor] where
  changes : List (MemoryChange Cursor)
  current : Cursor
  ordered : changes.Pairwise (·.cursor < ·.cursor)
  upToCurrent : ∀ change ∈ changes, change.cursor ≤ current

namespace Feed

variable {Cursor : Type} [LinearOrder Cursor]

/-- What follows a cursor. -/
def after (feed : Feed Cursor) (cursor : Cursor) : List (MemoryChange Cursor) :=
  feed.changes.filter (cursor < ·.cursor)

/-- A change that matches. -/
def publish (feed : Feed Cursor) (change : MemoryChange Cursor)
    (h : feed.current < change.cursor) : Feed Cursor where
  changes := feed.changes ++ [change]
  current := change.cursor
  ordered := by
    refine List.pairwise_append.mpr ⟨feed.ordered, List.pairwise_singleton _ _, ?_⟩
    intro old hold new hnew
    obtain rfl := List.mem_singleton.mp hnew
    exact (feed.upToCurrent old hold).trans_lt h
  upToCurrent := by
    intro c hc
    rcases List.mem_append.mp hc with hold | hnew
    · exact (feed.upToCurrent c hold).trans h.le
    · rw [List.mem_singleton.mp hnew]

/-- A change that does not match. -/
def advance (feed : Feed Cursor) (current : Cursor) (h : feed.current ≤ current) : Feed Cursor :=
  { feed with current, upToCurrent := fun c hc => (feed.upToCurrent c hc).trans h }

end Feed

/-! ### The pipeline -/

/-- What an attempt did with a change, in the order of time. -/
inductive Moment (Cursor : Type) where
  | handed (change : MemoryChange Cursor)
  | completed (change : MemoryChange Cursor)
  | saved (change : MemoryChange Cursor)
  | failed (change : MemoryChange Cursor)

/-- Where the promise of a change stands: it waits for the promise before it and for the boundary; it
awaits the handler, or the save, which may have been written; it has settled. -/
inductive ProcessingStatus where
  | waiting
  | handling
  | saving (written : Bool)
  | saved
  | refused
  | unhandled
  | unsaved
  | skipped
  deriving DecidableEq

/-- The promise of a change. -/
structure Processing (Cursor : Type) where
  change : MemoryChange Cursor
  status : ProcessingStatus

/-- The promise has settled. -/
def ProcessingStatus.Settled : ProcessingStatus → Prop
  | .saved | .refused | .unhandled | .unsaved | .skipped => True
  | _ => False

instance : DecidablePred ProcessingStatus.Settled := fun status => by
  cases status <;> unfold ProcessingStatus.Settled <;> infer_instance

/-- How far an attempt is with its boundary. -/
inductive AttemptPhase where
  | starting
  | savingBoundary (written : Bool)
  | racing
  | draining
  deriving DecidableEq

/-- `runSubscriptionAttempt`. `delivered` says how many changes after its boundary the plugin has
delivered; `accepting` is false when the attempt drains. -/
structure Attempt (Cursor : Type) where
  requested : Option Cursor
  boundary : Option Cursor
  delivered : ℕ
  processings : List (Processing Cursor)
  phase : AttemptPhase
  boundaryError : Bool
  pipelineError : Bool
  history : List (Moment Cursor)

namespace Attempt

variable {Cursor : Type}

/-- The call of `plugin.subscribe`. -/
def start (requested : Option Cursor) : Attempt Cursor :=
  ⟨requested, none, 0, [], .starting, false, false, []⟩

/-- The `boundary` promise was released. -/
def Released (a : Attempt Cursor) : Prop := a.phase = .racing ∨ a.phase = .draining

instance (a : Attempt Cursor) : Decidable a.Released := inferInstanceAs (Decidable (_ ∨ _))

/-- The `tail` a promise was chained to. -/
def TailSettled (a : Attempt Cursor) (k : ℕ) : Prop :=
  ∀ before ∈ a.processings[k - 1]?, k = 0 ∨ before.status.Settled

instance (a : Attempt Cursor) (k : ℕ) : Decidable (a.TailSettled k) :=
  inferInstanceAs (Decidable (∀ before ∈ a.processings[k - 1]?, k = 0 ∨ before.status.Settled))

/-- `onChange`. -/
def onChange (a : Attempt Cursor) (aborted : Bool) (change : MemoryChange Cursor) :
    Attempt Cursor :=
  if a.phase = .draining ∨ aborted then a
  else { a with processings := a.processings ++ [⟨change, .waiting⟩] }

/-- A promise gets on. -/
def move (a : Attempt Cursor) (k : ℕ) (change : MemoryChange Cursor) (status : ProcessingStatus)
    (moments : List (Moment Cursor)) : Attempt Cursor :=
  { a with
    processings := a.processings.set k ⟨change, status⟩
    history := a.history ++ moments }

/-- A promise fails, and the pipeline with it. -/
def fail (a : Attempt Cursor) (k : ℕ) (change : MemoryChange Cursor) (status : ProcessingStatus) :
    Attempt Cursor :=
  { a.move k change status [.failed change] with pipelineError := true }

/-- The attempt leaves its race, with an error or because the subscription was closed. -/
def leave (a : Attempt Cursor) (error : Bool) : Attempt Cursor :=
  { a with phase := .draining, boundaryError := a.boundaryError || error }

/-- The head of a promise, up to the handler. -/
def begin [DecidableEq Cursor] (a : Attempt Cursor) (value : Option Cursor) (aborted : Bool)
    (k : ℕ) (change : MemoryChange Cursor) : Attempt Cursor :=
  if a.boundaryError ∨ a.pipelineError then a.move k change .skipped []
  else if some change.cursor = value then a.move k change .skipped []
  else if aborted then a.fail k change .refused
  else a.move k change .handling [.handed change]

end Attempt

/-! ### The worker -/

inductive WorkerStage (Cursor : Type) where
  | loading
  | ready
  | attempting (a : Attempt Cursor)
  | returned

/-- `runSubscriptionWorker`; `value` is its cursor. -/
structure Worker (Cursor : Type) where
  value : Option Cursor
  stage : WorkerStage Cursor
  aborted : Bool

/-- A subscription: the plugin, the cursor store, and the worker unless there is none. `handled` are
the changes whose handler completed; `accepted` is the boundary of the attempt the plugin accepted
first, and `settled` the one that was saved first. -/
structure Subscriber (Cursor : Type) [LinearOrder Cursor] where
  feed : Feed Cursor
  persisted : Option Cursor
  worker : Option (Worker Cursor)
  handled : List (MemoryChange Cursor)
  accepted : Option Cursor
  settled : Option Cursor

inductive SubscriberEvent (Cursor : Type) where
  | publish (change : MemoryChange Cursor)
  | advance (current : Cursor)
  | run
  | crash
  | abort
  | load
  | loadFails (retryable : Bool)
  | quit
  | attempt
  | accept
  | deliver
  | subscribed (ok : Bool)
  | writeBoundary
  | boundarySaved (ok : Bool)
  | leave (error : Bool)
  | begin (k : ℕ)
  | handlerSettles (k : ℕ) (ok : Bool)
  | write (k : ℕ)
  | saveSettles (k : ℕ) (ok : Bool)
  | finish (stopFails retryable : Bool)

namespace Subscriber

variable {Cursor : Type} [LinearOrder Cursor] (s : Subscriber Cursor)

/-- The worker gets on. -/
def withStage (w : Worker Cursor) (stage : WorkerStage Cursor) : Subscriber Cursor :=
  { s with worker := some { w with stage } }

/-- Events of the plugin and of the process. -/
def stepOutside : SubscriberEvent Cursor → Subscriber Cursor
  | .publish change =>
    if h : s.feed.current < change.cursor then { s with feed := s.feed.publish change h } else s
  | .advance current =>
    if h : s.feed.current ≤ current then { s with feed := s.feed.advance current h } else s
  | .run =>
    match s.worker with
    | none | some ⟨_, .returned, _⟩ => { s with worker := some ⟨none, .loading, false⟩ }
    | _ => s
  | .crash => { s with worker := none }
  | .abort => { s with worker := s.worker.map fun w => { w with aborted := true } }
  | _ => s

/-- Events of a worker that loads its cursor. -/
def stepLoading (w : Worker Cursor) : SubscriberEvent Cursor → Subscriber Cursor
  | .load => { s with worker := some { w with value := s.persisted, stage := .ready } }
  | .loadFails retryable => if retryable ∧ ¬ w.aborted then s else s.withStage w .returned
  | .quit => if w.aborted then s.withStage w .returned else s
  | _ => s

/-- Events of a worker between its attempts. -/
def stepReady (w : Worker Cursor) : SubscriberEvent Cursor → Subscriber Cursor
  | .attempt => s.withStage w (.attempting (.start w.value))
  | .quit => if w.aborted then s.withStage w .returned else s
  | _ => s

/-- Events of an attempt. -/
def stepAttempt (w : Worker Cursor) (a : Attempt Cursor) :
    SubscriberEvent Cursor → Subscriber Cursor
  | .accept =>
    if a.boundary = none ∧ a.phase = .starting then
      let boundary := a.requested.getD s.feed.current
      { s.withStage w (.attempting { a with boundary := some boundary }) with
        accepted := some (s.accepted.getD boundary) }
    else s
  | .deliver =>
    match a.boundary with
    | none => s
    | some boundary =>
      match (s.feed.after boundary)[a.delivered]? with
      | none => s
      | some change => s.withStage w
          (.attempting { a.onChange w.aborted change with delivered := a.delivered + 1 })
  | .subscribed ok =>
    if a.phase = .starting ∧ (ok → a.boundary ≠ none) then
      if ok ∧ ¬ w.aborted then
        s.withStage w (.attempting { a with phase := .savingBoundary false })
      else s.withStage w (.attempting (a.leave true))
    else s
  | .writeBoundary =>
    if a.phase = .savingBoundary false then
      { s.withStage w (.attempting { a with phase := .savingBoundary true }) with
        persisted := a.boundary }
    else s
  | .boundarySaved ok =>
    match a.phase with
    | .savingBoundary written =>
      if ok then
        if written then
          { s with
            worker := some { w with
              value := a.boundary
              stage := .attempting { a with phase := .racing } }
            settled := s.settled <|> a.boundary }
        else s
      else s.withStage w (.attempting (a.leave true))
    | _ => s
  | .leave error =>
    if a.phase = .racing then s.withStage w (.attempting (a.leave error)) else s
  | .begin k =>
    match a.processings[k]? with
    | some ⟨change, .waiting⟩ =>
      if a.Released ∧ a.TailSettled k then
        s.withStage w (.attempting (a.begin w.value w.aborted k change))
      else s
    | _ => s
  | .handlerSettles k ok =>
    match a.processings[k]? with
    | some ⟨change, .handling⟩ =>
      if ok then
        let completed := a.move k change (.saving false) [.completed change]
        { s.withStage w (.attempting
            (if w.aborted then completed.fail k change .unsaved else completed)) with
          handled := s.handled ++ [change] }
      else s.withStage w (.attempting (a.fail k change .unhandled))
    | _ => s
  | .write k =>
    match a.processings[k]? with
    | some ⟨change, .saving false⟩ =>
      { s.withStage w (.attempting (a.move k change (.saving true) [])) with
        persisted := some change.cursor }
    | _ => s
  | .saveSettles k ok =>
    match a.processings[k]? with
    | some ⟨change, .saving written⟩ =>
      if ok then
        if written then
          { s with
            worker := some { w with
              value := some change.cursor
              stage := .attempting (a.move k change .saved [.saved change]) } }
        else s
      else s.withStage w (.attempting (a.fail k change .unsaved))
    | _ => s
  | .finish stopFails retryable =>
    if a.phase = .draining ∧ ∀ p ∈ a.processings, p.status.Settled then
      if (a.boundaryError ∨ a.pipelineError ∨ stopFails) ∧ retryable ∧ ¬ w.aborted then
        s.withStage w .ready
      else s.withStage w .returned
    else s
  | _ => s

/-- Events of the worker. -/
def stepInside (event : SubscriberEvent Cursor) : Subscriber Cursor :=
  match s.worker with
  | none => s
  | some w =>
    match w.stage with
    | .loading => s.stepLoading w event
    | .ready => s.stepReady w event
    | .attempting a => s.stepAttempt w a event
    | .returned => s

/-- One event. -/
def step (event : SubscriberEvent Cursor) : Subscriber Cursor :=
  (s.stepInside event).stepOutside event

/-- A subscription before its first worker. The cursor store may hold a cursor of the feed. -/
def Initial : Prop :=
  s.worker = none ∧ s.handled = [] ∧ s.accepted = none ∧ s.settled = none ∧
    ∀ p ∈ s.persisted, p ≤ s.feed.current

end Subscriber

/-- The subscriptions reached by runs whose events all meet a condition. -/
inductive SubscriberReaches {Cursor : Type} [LinearOrder Cursor]
    (allowed : Subscriber Cursor → SubscriberEvent Cursor → Prop) : Subscriber Cursor → Prop
  | start {s : Subscriber Cursor} (h : s.Initial) : SubscriberReaches allowed s
  | step {s : Subscriber Cursor} (event : SubscriberEvent Cursor) (h : SubscriberReaches allowed s)
      (hallowed : allowed s event) : SubscriberReaches allowed (s.step event)

/-! ### What the consumer relies on -/

section Guarantees

variable {Cursor : Type} [LinearOrder Cursor]

/-- Every change above a position, up to a cursor, was handled. -/
def Feed.Handled (feed : Feed Cursor) (handled : List (MemoryChange Cursor))
    (position upTo : Cursor) : Prop :=
  ∀ change ∈ feed.changes, position < change.cursor → change.cursor ≤ upTo → change ∈ handled

/-- Every change above a position, up to the persisted cursor, was handled. -/
def Subscriber.AtLeastOnce (s : Subscriber Cursor) (position : Option Cursor) : Prop :=
  ∀ since ∈ position, ∀ upTo ∈ s.persisted, s.feed.Handled s.handled since upTo

/-- Changes one at a time: handed to the handler, completed, saved. -/
def orderly (changes : List (MemoryChange Cursor)) : List (Moment Cursor) :=
  changes.flatMap fun change => [.handed change, .completed change, .saved change]

/-- What an attempt did so far: some of that for the changes after its boundary, and after a
failure nothing more. -/
def Attempt.Orderly (feed : Feed Cursor) (a : Attempt Cursor) : Prop :=
  ∃ before, before <+: orderly ((a.boundary.map feed.after).getD []) ∧
    (a.history = before ∨ ∃ change, a.history = before ++ [.failed change])

end Guarantees

/-! ### The feed -/

namespace Feed

variable {Cursor : Type} [LinearOrder Cursor] {feed : Feed Cursor}
  {handled handled' : List (MemoryChange Cursor)} {position upTo cursor : Cursor}

theorem Handled.refl (feed : Feed Cursor) (handled : List (MemoryChange Cursor))
    (cursor : Cursor) : feed.Handled handled cursor cursor :=
  fun _ _ hlt hle => absurd hlt (not_lt.mpr hle)

theorem Handled.mono (h : feed.Handled handled position upTo) (hsub : handled ⊆ handled') :
    feed.Handled handled' position upTo :=
  fun change hc hlt hle => hsub (h change hc hlt hle)

theorem Handled.publish (h : feed.Handled handled position upTo) (hupTo : upTo ≤ feed.current)
    (change : MemoryChange Cursor) (hnew : feed.current < change.cursor) :
    (feed.publish change hnew).Handled handled position upTo := by
  intro c hc hlt hle
  rcases List.mem_append.mp hc with hold | hc
  · exact h c hold hlt hle
  · rw [List.mem_singleton.mp hc] at hle
    exact absurd (hle.trans hupTo) (not_le.mpr hnew)

theorem after_publish (change : MemoryChange Cursor) (hnew : feed.current < change.cursor)
    (cursor : Cursor) : feed.after cursor <+: (feed.publish change hnew).after cursor := by
  unfold after publish
  rw [List.filter_append]
  exact List.prefix_append _ _

theorem mem_after {change : MemoryChange Cursor} :
    change ∈ feed.after cursor ↔ change ∈ feed.changes ∧ cursor < change.cursor := by
  unfold after
  rw [List.mem_filter, decide_eq_true_iff]

theorem after_ordered (feed : Feed Cursor) (cursor : Cursor) :
    (feed.after cursor).Pairwise (·.cursor < ·.cursor) :=
  feed.ordered.filter _

/-- Handling what follows a boundary extends what was handled up to the boundary. -/
theorem Handled.extend {before rest : List (MemoryChange Cursor)} {change : MemoryChange Cursor}
    (h : feed.Handled handled position cursor)
    (hafter : feed.after cursor = before ++ change :: rest)
    (hbefore : ∀ c ∈ before, c ∈ handled) (hchange : change ∈ handled) :
    feed.Handled handled position change.cursor := by
  intro c hc hlt hle
  by_cases hcursor : c.cursor ≤ cursor
  · exact h c hc hlt hcursor
  · have hmem : c ∈ before ++ change :: rest :=
      hafter ▸ mem_after.mpr ⟨hc, not_le.mp hcursor⟩
    rcases List.mem_append.mp hmem with hin | hin
    · exact hbefore c hin
    · rcases List.mem_cons.mp hin with rfl | hrest
      · exact hchange
      · have hordered := hafter ▸ feed.after_ordered cursor
        have hlater := (List.pairwise_cons.mp (List.pairwise_append.mp hordered).2.1).1 c hrest
        exact absurd hle (not_le.mpr hlater)

end Feed

end Patchouli
