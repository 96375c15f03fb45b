import Patchouli.Sqlite.Identities

/-!
# Waiting for changes

`wait_for_changes` subscribes to the change signal, reads the frontier of its scope, and parks until
the signal is raised if there is nothing new. A call that publishes raises the signal after its
transaction; transaction and signal are two steps of an async function, and so are the waiter's look
at the frontier and its parking. Between any two of them other calls run, and a future can be
dropped. A transaction that was handed to the database thread runs all the same.

The waiter's two steps do no harm: it subscribes first, so a signal raised after its look finds it
subscribed. The publisher's two steps do: a call that is dropped after its transaction ran, or while
the database thread has it, never raises the signal. Then a waiter can sleep on a change that is
stored.

## Main definitions

* `Operation.Signals` — the outcomes after which a call raises the signal
* `Runtime`, `Runtime.Step` — the futures of one provider and what they do next
* `TaskEvent.Orderly` — no call is dropped that has a signal to raise

## Main results

* `Operation.call_frontier` — a call without a signal moves no frontier
* `no_lost_wakeup` — in orderly runs no waiter sleeps on a change
* `dropped_commit_wakes_nobody` — a run that is not
-/

namespace Patchouli

open Db

/-! ### What needs a signal -/

/-- `signal_changes` is called after these outcomes. -/
def Operation.Signals : {α : Type} → Operation α → Except ProviderError α → Prop
  | _, .commitEntity _, outcome => outcome = .ok .committed
  | _, .commitEntityIdempotent .., outcome => outcome = .ok .committed
  | _, .commitEntityInWorkUnit _, outcome => outcome = .ok .published
  | _, .publishWorkUnit _, outcome => outcome = .ok .published
  | _, _, _ => False

/-- The frontiers are moved by the statements of a publication only. -/
theorem scopeFrontier_keptQuietly (rows : List ScopeFrontierRow) :
    KeptQuietly (fun _ _ => True) (fun _ => True) fun db => db.scopeFrontier = rows where
  ordinary _ _ := trivial
  insertEntityVersions db hI key versions unit recordedAt _ :=
    .of_forall (fun _ => trivial) fun new h => by
      obtain ⟨_, _, _, _, rfl, -⟩ := insertEntityVersions_frame h
      exact hI
  replaceWorkUnitHeads db hI unit key heads := .of_forall (fun _ => trivial) fun new h => by
    obtain ⟨-, -, -, -, rfl⟩ := replaceWorkUnitHeads_eq_ok.mp h
    exact hI
  advanceReadSessions db hI _ _ _ := hI
  openWorkUnit db hI _ _ _ _ := hI
  captureWorkUnitEntity db hI unit key := .of_forall (fun _ => trivial) fun new h => by
    obtain ⟨_, _, rfl⟩ := captureWorkUnitEntity_eq h
    exact hI
  recordStagedMutation db hI _ := hI
  markClosing db hI _ := hI
  expireWorkUnit db hI identity now := .of_forall (fun _ => trivial) fun new h => by
    obtain ⟨rfl, -⟩ := expireWorkUnit_spec h
    exact hI
  deleteOverdueIdempotency db hI now := .of_forall (fun _ => trivial) fun new h => by
    obtain ⟨-, rfl⟩ := deleteOverdueIdempotency_eq_ok.mp h
    exact hI
  insertWorkUnitIdempotency db hI unit record _ _ := .of_forall (fun _ => trivial) fun new h => by
    obtain rfl := insertWorkUnitIdempotency_eq h
    exact hI
  recordRetention db hI _ := hI
  deleteOverdueChanges db hI _ := hI

section Told

variable {α : Type} {told : α → Prop} {rows : List ScopeFrontierRow} {db : Db}

/-- A reply tells of what it published, or it moved no frontier. -/
def Reply.Tells (told : α → Prop) (rows : List ScopeFrontierRow) (reply : Reply α) : Prop :=
  (∃ value, reply.outcome = .ok value ∧ told value) ∨ reply.db.scopeFrontier = rows

theorem Reply.Tells.mapError (f : ProviderError → ProviderError) {reply : Reply α}
    (h : reply.Tells told rows) :
    Reply.Tells told rows { reply with outcome := reply.outcome.mapError f } := by
  rcases h with ⟨value, hok, htold⟩ | hsame
  · exact Or.inl ⟨value, by rw [hok]; rfl, htold⟩
  · exact Or.inr hsame

/-- The same of a transaction body. -/
abbrev Tells (told : α → Prop) (rows : List ScopeFrontierRow)
    (body : Except ProviderError (Finished α)) : Prop :=
  body.Meets (fun _ => True) fun finished =>
    told finished.value ∨ ∀ new ∈ finished.committed, new.scopeFrontier = rows

theorem Tells.of_ends {body : Except ProviderError (Finished α)}
    (h : Ends (fun _ => True) (fun db => db.scopeFrontier = rows) body) : Tells told rows body :=
  Except.Meets.mono h fun _ => Or.inr

theorem Tells.rollback (value : α) : Tells told rows (rollback value) :=
  Or.inr fun _ h => nomatch h

theorem Tells.commitBeforeDeadline {value : α} (h : told value) (now : ℕ)
    (deadline : Option ℕ) (db : Db) :
    Tells told rows (commitBeforeDeadline now deadline db value) :=
  .of_forall (fun _ => trivial) fun _ heq => Or.inl ((commitBeforeDeadline_eq_ok.mp heq).2 ▸ h)

theorem Tells.transaction (hrows : db.scopeFrontier = rows)
    {body : Except ProviderError (Finished α)} (h : Tells told rows body) :
    (transaction db body).Tells told rows := by
  unfold Patchouli.transaction
  split
  · rename_i value new
    rcases h with htold | hnew
    · exact Or.inl ⟨value, rfl, htold⟩
    · exact Or.inr (hnew new rfl)
  · exact Or.inr hrows
  · exact Or.inr hrows

theorem Tells.sweepThen (hrows : db.scopeFrontier = rows) {clock : Clock} {call : Db → Reply α}
    (h : ∀ db, db.scopeFrontier = rows → (call db).Tells told rows) :
    (sweepThen db clock call).Tells told rows := by
  have hquiet := scopeFrontier_keptQuietly rows
  have hsweep : (db.sweepExpiredWorkUnits clock.sweep).Keeps (fun _ => True)
      fun db => db.scopeFrontier = rows :=
    Ends.transaction hrows <|
      (hquiet.expireOpenWorkUnits hrows clock.sweep).bind fun db hrows => Ends.commit hrows ()
  unfold Patchouli.sweepThen
  split
  · rename_i swept heq
    rw [heq] at hsweep
    exact h swept hsweep.2
  · rename_i error swept heq
    rw [heq] at hsweep
    exact Or.inr hsweep.2

/-! ### The calls that publish -/

def EntityCommitOutcome.IsCommitted (outcome : EntityCommitOutcome) : Prop := outcome = .committed

def IdempotentCommitOutcome.IsCommitted (outcome : IdempotentCommitOutcome) : Prop :=
  outcome = .committed

def WorkUnitCommitOutcome.IsPublished (outcome : WorkUnitCommitOutcome) : Prop :=
  outcome = .published

theorem commitEntity_tells (hrows : db.scopeFrontier = rows) (clock : Clock)
    (entity : EntityCommit) :
    (commitEntity db clock entity).Tells EntityCommitOutcome.IsCommitted rows :=
  Tells.sweepThen hrows fun db hrows => Tells.transaction hrows <| by
    split
    · trivial
    · refine Except.Meets.bind (P := fun _ => True) (.of_forall (fun _ => trivial) fun _ _ => trivial)
        fun r _ => ?_
      obtain ⟨outcome, new⟩ := r
      cases outcome with
      | conflict => exact Tells.rollback _
      | committed =>
        have htold : EntityCommitOutcome.IsCommitted .committed := rfl
        exact Tells.commitBeforeDeadline htold _ _ _

theorem commitEntityIdempotent_tells (hrows : db.scopeFrontier = rows) (clock : Clock)
    (entity : EntityCommit) (record : IdempotencyRecord) (now : ℕ) :
    (commitEntityIdempotent db clock entity record now).Tells
      IdempotentCommitOutcome.IsCommitted rows := by
  by_cases h : (commitEntityIdempotent db clock entity record now).outcome = .ok .committed
  · exact Or.inl ⟨_, h, rfl⟩
  · refine Or.inr ?_
    rw [commitEntityIdempotent_db h]
    exact hrows

theorem publishOrReport_tells (hrows : db.scopeFrontier = rows) (clock : Clock)
    (closing : WorkUnitCommit) :
    Tells WorkUnitCommitOutcome.IsPublished rows (publishOrReport clock closing db) := by
  refine .of_forall (fun _ => trivial) fun finished h => ?_
  obtain ⟨new, hnew, hclosed⟩ := publishOrReport_closedBy h
  obtain ⟨value, committed⟩ := finished
  cases hclosed with
  | published => exact Or.inl rfl
  | reported => exact Or.inr fun db hdb => by simp_all

theorem commitInOpenWorkUnit_tells (hrows : db.scopeFrontier = rows) (clock : Clock)
    (staged : WorkUnitCommit) :
    Tells WorkUnitCommitOutcome.IsPublished rows (commitInOpenWorkUnit clock staged db) := by
  have hquiet := scopeFrontier_keptQuietly rows
  refine (hquiet.captureWorkUnitEntity db hrows _ _).bind fun db hrows => ?_
  have hrecorded := hquiet.recordStagedMutation db hrows staged
  dsimp only
  split
  · exact Tells.rollback _
  · refine (hquiet.sqliteTime _ (by decide)).bind fun recordedAt _ =>
      ((hquiet.insertEntityVersions _ hrecorded _ _ _ _ fun _ _ => trivial).bind fun db hrows =>
        hquiet.replaceWorkUnitHeads db hrows _ _ _).bind fun db hrows =>
          (hquiet.stageIdempotency hrows staged).bind fun r hr => ?_
    obtain ⟨outcome, new⟩ := r
    cases outcome with
    | some outcome => exact Tells.rollback _
    | none =>
      dsimp only at hr ⊢
      split
      · exact publishOrReport_tells (hquiet.markClosing new hr _) clock staged
      · exact Tells.of_ends (hquiet.commitBeforeDeadline hr _ _ _)

theorem commitEntityInWorkUnit_tells (hrows : db.scopeFrontier = rows) (clock : Clock)
    (staged : WorkUnitCommit) :
    (commitEntityInWorkUnit db clock staged).Tells WorkUnitCommitOutcome.IsPublished rows :=
  have hquiet := scopeFrontier_keptQuietly rows
  Tells.sweepThen hrows fun db hrows => Tells.transaction hrows <| by
    split
    · trivial
    · refine (hquiet.ensureWorkUnit hrows _).bind fun r hr => ?_
      obtain ⟨state, new⟩ := r
      have hanswer : ∀ outcome, Tells WorkUnitCommitOutcome.IsPublished rows
        (Patchouli.commitBeforeDeadline clock.commit staged.workUnit.deadlineUnixMs new outcome) :=
        fun _ => Tells.of_ends (hquiet.commitBeforeDeadline hr _ _ _)
      cases state with
      | policyMismatch => exact hanswer _
      | committed => exact hanswer _
      | expired => exact hanswer _
      | closing =>
        dsimp only
        split
        · exact publishOrReport_tells hr clock staged
        · exact hanswer _
      | opened => exact commitInOpenWorkUnit_tells hr clock staged

theorem publishWorkUnit_tells (hrows : db.scopeFrontier = rows) (clock : Clock)
    (publish : WorkUnitPublish) :
    (publishWorkUnit db clock publish).Tells WorkUnitCommitOutcome.IsPublished rows := by
  have hquiet := scopeFrontier_keptQuietly rows
  have hclosing : ∀ db, Tells WorkUnitCommitOutcome.IsPublished rows
      (publishClosingWorkUnit publish db) := by
    refine fun db => .of_forall (fun _ => trivial) fun finished h => ?_
    obtain ⟨conflicts, -, h⟩ := Except.bind_eq_ok.mp h
    split at h
    · rw [rollback_eq_ok.mp h]
      exact Or.inr fun _ h => nomatch h
    · obtain ⟨applied, -, h⟩ := Except.bind_eq_ok.mp h
      cases applied with
      | error outcome =>
        rw [rollback_eq_ok.mp h]
        exact Or.inr fun _ h => nomatch h
      | ok new =>
        obtain ⟨_, -, h⟩ := Except.bind_eq_ok.mp h
        obtain ⟨_, -, h⟩ := Except.bind_eq_ok.mp h
        rw [commit_eq_ok.mp h]
        exact Or.inl rfl
  refine Reply.Tells.mapError publicationFailed <| Tells.sweepThen hrows fun db hrows =>
    Tells.transaction hrows <| (hquiet.ensureWorkUnit hrows _).bind fun r hr => ?_
  obtain ⟨state, new⟩ := r
  have hanswer : ∀ outcome, Tells WorkUnitCommitOutcome.IsPublished rows (commit new outcome) :=
    fun _ => Tells.of_ends (Ends.commit hr _)
  cases state with
  | policyMismatch => exact hanswer _
  | committed => exact hanswer _
  | expired => exact hanswer _
  | closing => exact hclosing new
  | opened => trivial

end Told

/-- **A call without a signal moves no frontier.** -/
theorem Operation.call_frontier (search : Search) (db : Db) (clock : Clock) {α : Type}
    (op : Operation α) (h : ¬ op.Signals (op.call search db clock).outcome) (scope : String) :
    (op.call search db clock).db.currentScopeCursor scope = db.currentScopeCursor scope := by
  have hquiet := scopeFrontier_keptQuietly db.scopeFrontier
  have hrows : (op.call search db clock).db.scopeFrontier = db.scopeFrontier := by
    cases op with
    | readEntity key consistency => exact (hquiet.readEntity rfl clock key consistency).2
    | readChanges query => exact (hquiet.readChanges rfl query).2
    | retrieveEntities query consistency =>
      exact (hquiet.retrieveEntities rfl search clock query consistency).2
    | readIdempotency scope consistency identity request now =>
      exact (hquiet.readIdempotency rfl clock scope consistency identity request now).2
    | readEntityInWorkUnit workUnit key consistency =>
      exact (hquiet.readEntityInWorkUnit rfl clock workUnit key consistency).2
    | readIdempotencyInWorkUnit workUnit consistency identity request now allowReplay =>
      exact (hquiet.readIdempotencyInWorkUnit rfl clock workUnit consistency identity request now
        allowReplay).2
    | retrieveEntitiesInWorkUnit workUnit query consistency =>
      exact (hquiet.retrieveEntitiesInWorkUnit rfl search clock workUnit query consistency).2
    | commitEntity entity =>
      refine (commitEntity_tells rfl clock entity).resolve_left ?_
      rintro ⟨_, hok, rfl⟩
      exact h hok
    | commitEntityIdempotent entity record now =>
      refine (commitEntityIdempotent_tells rfl clock entity record now).resolve_left ?_
      rintro ⟨_, hok, rfl⟩
      exact h hok
    | commitEntityInWorkUnit staged =>
      refine (commitEntityInWorkUnit_tells rfl clock staged).resolve_left ?_
      rintro ⟨_, hok, rfl⟩
      exact h hok
    | publishWorkUnit publish =>
      refine (publishWorkUnit_tells rfl clock publish).resolve_left ?_
      rintro ⟨_, hok, rfl⟩
      exact h hok
  rw [currentScopeCursor, currentScopeCursor, hrows]

/-! ### The futures of a provider -/

/-- Where a `wait_for_changes` is: its query of the frontier is on its way, answered, or it is in
`changed().await`. -/
inductive Waiting where
  | asking
  | answered (current : ℕ)
  | parked

/-- A future of the provider, or a transaction whose future is gone. -/
inductive Task : Type 1
  /-- `wait_for_changes`, subscribed when the generation was `seen`. -/
  | waiting (scope : String) (afterCursor seen : ℕ) (stage : Waiting)
  /-- A call that awaits the connection. -/
  | calling {α : Type} (op : Operation α)
  /-- A transaction that was handed to the database thread. -/
  | handed {α : Type} (op : Operation α) (awaited : Bool)
  /-- The transaction ran, and the future was not polled since. -/
  | answered {α : Type} (op : Operation α) (outcome : Except ProviderError α)

/-- The provider with its futures. `generation` is the value of the watch channel. -/
structure Runtime where
  db : Db
  generation : ℕ
  tasks : List Task

/-- What happened in a step, as far as a run is judged by it. -/
inductive TaskEvent : Type 1
  | polled
  | executed {α : Type} (op : Operation α) (awaited : Bool) (outcome : Except ProviderError α)
  | dropped (task : Task)

/-- One task goes on: the database, the generation and what becomes of the task. -/
inductive Task.Step (search : Search) (db : Db) (generation : ℕ) :
    Task → TaskEvent → Db → ℕ → Option Task → Prop
  | handOver {α : Type} (op : Operation α) :
      Step search db generation (.calling op) .polled db generation (some (.handed op true))
  | execute {α : Type} (op : Operation α) (awaited : Bool) (clock : Clock) :
      Step search db generation (.handed op awaited)
        (.executed op awaited (op.call search db clock).outcome) (op.call search db clock).db
        generation (if awaited then some (.answered op (op.call search db clock).outcome) else none)
  | signal {α : Type} (op : Operation α) (outcome : Except ProviderError α)
      (h : op.Signals outcome) :
      Step search db generation (.answered op outcome) .polled db (generation + 1) none
  | finish {α : Type} (op : Operation α) (outcome : Except ProviderError α)
      (h : ¬ op.Signals outcome) :
      Step search db generation (.answered op outcome) .polled db generation none
  | ask (scope : String) (afterCursor seen : ℕ) :
      Step search db generation (.waiting scope afterCursor seen .asking) .polled db generation
        (some (.waiting scope afterCursor seen (.answered (db.currentScopeCursor scope))))
  | arrive (scope : String) (afterCursor seen current : ℕ) (h : afterCursor < current) :
      Step search db generation (.waiting scope afterCursor seen (.answered current)) .polled db
        generation none
  | park (scope : String) (afterCursor seen current : ℕ) (h : current ≤ afterCursor) :
      Step search db generation (.waiting scope afterCursor seen (.answered current)) .polled db
        generation (some (.waiting scope afterCursor seen .parked))
  | wake (scope : String) (afterCursor seen : ℕ) (h : seen ≠ generation) :
      Step search db generation (.waiting scope afterCursor seen .parked) .polled db generation
        (some (.waiting scope afterCursor generation .asking))
  | dropHanded {α : Type} (op : Operation α) :
      Step search db generation (.handed op true) (.dropped (.handed op true)) db generation
        (some (.handed op false))
  | drop (task : Task) (h : ∀ (α : Type) (op : Operation α) awaited, task ≠ .handed op awaited) :
      Step search db generation task (.dropped task) db generation none

/-- A step of the process: a future is polled for the first time, or a task goes on. -/
inductive Runtime.Step (search : Search) : Runtime → TaskEvent → Runtime → Prop
  | call (p : Runtime) {α : Type} (op : Operation α) :
      Step search p .polled { p with tasks := p.tasks ++ [.calling op] }
  | wait (p : Runtime) (scope : String) (afterCursor : ℕ) :
      Step search p .polled
        { p with tasks := p.tasks ++ [.waiting scope afterCursor p.generation .asking] }
  | task (before after : List Task) {db new : Db} {generation next : ℕ} {task : Task}
      {rest : Option Task} {event : TaskEvent}
      (h : task.Step search db generation event new next rest) :
      Step search ⟨db, generation, before ++ task :: after⟩ event
        ⟨new, next, before ++ (rest.toList ++ after)⟩

/-- **No call is dropped that has a signal to raise**: not after its transaction ran, and a
transaction whose call was dropped before does not publish. -/
def TaskEvent.Orderly : TaskEvent → Prop
  | .dropped (.answered op outcome) => ¬ op.Signals outcome
  | .executed op false outcome => ¬ op.Signals outcome
  | _ => True

/-- The states of a process in which every event is `allowed`. -/
inductive Runtime.Reaches (search : Search) (allowed : TaskEvent → Prop) : Runtime → Prop
  | start (db : Db) : Reaches search allowed ⟨db, 0, []⟩
  | step {p q : Runtime} {event : TaskEvent} (h : Reaches search allowed p)
      (hstep : p.Step search event q) (hallowed : allowed event) : Reaches search allowed q

/-- No database call is executing. -/
def Runtime.Idle (p : Runtime) : Prop :=
  ∀ task ∈ p.tasks, ∀ (α : Type) (op : Operation α),
    (∀ awaited, task ≠ .handed op awaited) ∧ ∀ outcome, task ≠ .answered op outcome

/-- Every parked waiter is up to date, or a signal is pending for it. -/
def Runtime.WaitersInformed (p : Runtime) : Prop :=
  ∀ scope afterCursor seen, Task.waiting scope afterCursor seen .parked ∈ p.tasks →
    p.db.currentScopeCursor scope ≤ afterCursor ∨ seen ≠ p.generation

/-! ### Orderly runs -/

/-- A call that has a signal to raise. -/
def Task.Owes (task : Task) : Prop :=
  ∃ (α : Type) (op : Operation α) (outcome : Except ProviderError α),
    task = .answered op outcome ∧ op.Signals outcome

/-- The waiter has looked at the frontier and found nothing new. -/
def Waiting.Looked (afterCursor : ℕ) : Waiting → Prop
  | .asking => False
  | .answered current => current ≤ afterCursor
  | .parked => True

/-- A waiter that looked is up to date, or a signal is pending for it, or one will be raised. -/
structure Runtime.Watched (p : Runtime) : Prop where
  seen : ∀ scope afterCursor seen stage,
    Task.waiting scope afterCursor seen stage ∈ p.tasks → seen ≤ p.generation
  looked : ∀ scope afterCursor seen stage,
    Task.waiting scope afterCursor seen stage ∈ p.tasks → stage.Looked afterCursor →
      p.db.currentScopeCursor scope ≤ afterCursor ∨ seen < p.generation ∨
        ∃ task ∈ p.tasks, task.Owes

variable {search : Search}

namespace Task.Step

variable {db new : Db} {generation next : ℕ} {task : Task} {event : TaskEvent} {rest : Option Task}

theorem generation_le (h : task.Step search db generation event new next rest) :
    generation ≤ next := by
  cases h <;> omega

/-- A frontier moves in the transaction of a call that then has a signal to raise. -/
theorem frontier (h : task.Step search db generation event new next rest) (horderly : event.Orderly) :
    (∀ scope, new.currentScopeCursor scope = db.currentScopeCursor scope) ∨
      ∃ owing ∈ rest, owing.Owes := by
  cases h with
  | execute op awaited clock =>
    by_cases hsignals : op.Signals (op.call search db clock).outcome
    · cases awaited with
      | false => exact absurd hsignals horderly
      | true => exact Or.inr ⟨_, rfl, _, op, _, rfl, hsignals⟩
    · exact Or.inl (op.call_frontier search db clock hsignals)
  | _ => exact Or.inl fun _ => rfl

/-- A call with a signal to raise raises it. -/
theorem signalled (h : task.Step search db generation event new next rest) (horderly : event.Orderly)
    (howes : task.Owes) : generation < next := by
  obtain ⟨_, op, outcome, rfl, hsignals⟩ := howes
  cases h with
  | signal => omega
  | finish _ _ h => exact absurd hsignals h
  | drop => exact absurd hsignals horderly

/-- A waiter that goes on has looked at this database, or before and nothing happened since. -/
theorem waiting (h : task.Step search db generation event new next rest) {scope : String}
    {afterCursor seen : ℕ} {stage : Waiting}
    (hrest : rest = some (.waiting scope afterCursor seen stage)) :
    new = db ∧ next = generation ∧ (seen = generation ∨
      ∃ before, task = .waiting scope afterCursor seen before) ∧
    (stage.Looked afterCursor → db.currentScopeCursor scope ≤ afterCursor ∨
      ∃ before, task = .waiting scope afterCursor seen before ∧ before.Looked afterCursor) := by
  cases h with
  | execute op awaited clock => cases awaited <;> cases hrest
  | ask => cases hrest; exact ⟨rfl, rfl, Or.inr ⟨_, rfl⟩, Or.inl⟩
  | park _ _ _ _ h => cases hrest; exact ⟨rfl, rfl, Or.inr ⟨_, rfl⟩, fun _ => Or.inr ⟨_, rfl, h⟩⟩
  | wake => cases hrest; exact ⟨rfl, rfl, Or.inl rfl, False.elim⟩
  | _ => cases hrest

end Task.Step

theorem Runtime.Watched.step {p q : Runtime} {event : TaskEvent} (h : p.Watched)
    (hstep : p.Step search event q) (horderly : event.Orderly) : q.Watched := by
  cases hstep with
  | call op =>
    refine ⟨fun scope afterCursor seen stage hmem => ?_, fun scope afterCursor seen stage hmem hl => ?_⟩
    · simp only [List.mem_append, List.mem_singleton, reduceCtorEq, or_false] at hmem
      exact h.seen _ _ _ _ hmem
    · simp only [List.mem_append, List.mem_singleton, reduceCtorEq, or_false] at hmem
      refine (h.looked _ _ _ _ hmem hl).imp id (Or.imp id ?_)
      exact fun ⟨task, htask, howes⟩ => ⟨task, List.mem_append_left _ htask, howes⟩
  | wait s a =>
    refine ⟨fun scope afterCursor seen stage hmem => ?_, fun scope afterCursor seen stage hmem hl => ?_⟩
    · rcases List.mem_append.mp hmem with hold | hnew
      · exact h.seen _ _ _ _ hold
      · cases List.mem_singleton.mp hnew
        exact le_refl p.generation
    · rcases List.mem_append.mp hmem with hold | hnew
      · refine (h.looked _ _ _ _ hold hl).imp id (Or.imp id ?_)
        exact fun ⟨task, htask, howes⟩ => ⟨task, List.mem_append_left _ htask, howes⟩
      · cases List.mem_singleton.mp hnew
        exact hl.elim
  | @task before after db new generation next task rest _ hstep =>
    -- a waiter that did not move
    have hother : ∀ scope afterCursor seen stage,
        Task.waiting scope afterCursor seen stage ∈ before ++ task :: after →
          stage.Looked afterCursor →
            new.currentScopeCursor scope ≤ afterCursor ∨ seen < next ∨
              ∃ t ∈ before ++ (rest.toList ++ after), t.Owes := by
      intro scope afterCursor seen stage hmem hl
      have hseen := h.seen _ _ _ _ hmem
      rcases h.looked _ _ _ _ hmem hl with hle | hlt | ⟨t, ht, howes⟩
      · rcases hstep.frontier horderly with hsame | ⟨t, ht, howes⟩
        · exact Or.inl ((hsame scope).trans_le hle)
        · exact Or.inr (Or.inr ⟨t, by simp_all, howes⟩)
      · exact Or.inr (Or.inl (hlt.trans_le hstep.generation_le))
      · simp only [List.mem_append, List.mem_cons] at ht
        rcases ht with ht | rfl | ht
        · exact Or.inr (Or.inr ⟨t, by simp [ht], howes⟩)
        · exact Or.inr (Or.inl (hseen.trans_lt (hstep.signalled horderly howes)))
        · exact Or.inr (Or.inr ⟨t, by simp [ht], howes⟩)
    have hsplit : ∀ t ∈ before ++ (rest.toList ++ after),
        t ∈ before ++ task :: after ∨ rest = some t := by
      intro t ht
      simp only [List.mem_append, Option.mem_toList, List.mem_cons] at ht ⊢
      tauto
    refine ⟨fun scope afterCursor seen stage hmem => ?_, fun scope afterCursor seen stage hmem hl => ?_⟩
    · rcases hsplit _ hmem with hold | hnew
      · exact (h.seen _ _ _ _ hold).trans hstep.generation_le
      · obtain ⟨-, rfl, rfl | ⟨stage', rfl⟩, -⟩ := hstep.waiting hnew
        · exact le_refl _
        · exact h.seen scope afterCursor seen stage' (by simp)
    · rcases hsplit _ hmem with hold | hnew
      · exact hother _ _ _ _ hold hl
      · obtain ⟨rfl, rfl, -, hlooked⟩ := hstep.waiting hnew
        rcases hlooked hl with hle | ⟨stage', rfl, hl'⟩
        · exact Or.inl hle
        · exact hother _ _ _ stage' (by simp) hl'

theorem Runtime.Reaches.watched {p : Runtime} (h : p.Reaches search TaskEvent.Orderly) : p.Watched := by
  induction h with
  | start db => exact ⟨by simp, by simp⟩
  | step _ hstep hallowed ih => exact ih.step hstep hallowed

/-- **No lost wakeup in an orderly run.** When no database call is executing, a parked waiter has
seen everything that is stored in its scope, or its signal is pending. -/
theorem no_lost_wakeup {p : Runtime} (h : p.Reaches search TaskEvent.Orderly) (hidle : p.Idle) :
    p.WaitersInformed := by
  intro scope afterCursor seen hmem
  rcases h.watched.looked _ _ _ _ hmem trivial with hle | hlt | ⟨task, htask, α, op, outcome, rfl, -⟩
  · exact Or.inl hle
  · exact Or.inr hlt.ne
  · exact absurd rfl ((hidle _ htask α op).2 outcome)

/-! ### A commit that nobody hears of -/

/-- A waiter parks in an empty scope, and then the creation of a note is handed to the database. -/
theorem waiter_then_creation (allowed : TaskEvent → Prop) (hpolled : allowed .polled) :
    Runtime.Reaches noSearch allowed ⟨Db.empty, 0,
      [.waiting "scope" 0 0 .parked, .handed (.commitEntity firstNote) true]⟩ := by
  have hstart : Runtime.Reaches noSearch allowed ⟨Db.empty, 0, []⟩ := .start Db.empty
  have hwait := hstart.step (.wait _ "scope" 0) hpolled
  have hask := hwait.step (.task [] [] (.ask "scope" 0 0)) hpolled
  have hpark := hask.step (.task [] []
    (.park "scope" 0 0 _ (by decide))) hpolled
  have hcall := hpark.step (.call _ (.commitEntity firstNote)) hpolled
  exact hcall.step (.task [.waiting "scope" 0 0 .parked] []
    (.handOver (.commitEntity firstNote))) hpolled

/-- The call is dropped, its transaction runs, and the waiter sleeps on. -/
theorem dropped_commit_wakes_nobody : ∃ p : Runtime,
    p.Reaches noSearch (fun _ => True) ∧ p.Idle ∧ ¬ p.WaitersInformed := by
  have hdrop := (waiter_then_creation (fun _ => True) trivial).step
    (.task [.waiting "scope" 0 0 .parked] []
      (.dropHanded (.commitEntity firstNote))) trivial
  have hrun := hdrop.step (.task [.waiting "scope" 0 0 .parked] []
    (.execute (.commitEntity firstNote) false ⟨5, 5, 5⟩)) trivial
  refine ⟨_, hrun, ?_, fun h => ?_⟩
  · simp [Runtime.Idle]
  · have := h "scope" 0 0 (by simp)
    revert this
    decide

/-- The call goes on, and the waiter has its signal. -/
theorem finished_commit_wakes_the_waiter : ∃ p : Runtime, p.Reaches noSearch TaskEvent.Orderly ∧
    p.generation = 1 ∧ p.WaitersInformed := by
  have hrun := (waiter_then_creation TaskEvent.Orderly trivial).step
    (.task [.waiting "scope" 0 0 .parked] []
      (.execute (.commitEntity firstNote) true ⟨5, 5, 5⟩)) trivial
  have hsignal := hrun.step (.task [.waiting "scope" 0 0 .parked] []
    (.signal (.commitEntity firstNote) _ rfl)) trivial
  exact ⟨_, hsignal, rfl, no_lost_wakeup hsignal (by simp [Runtime.Idle])⟩

end Patchouli
