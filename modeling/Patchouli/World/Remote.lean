import Patchouli.World
import Patchouli.Backend.Remote

/-!
# Engines over a remote provider

The provider calls of a mutation as requests and replies. A request can be delayed and lost, and so
can its reply; the client waits for its own timeout and gives up whenever it likes. A request whose
client gave up may still arrive. The authority executes what arrives, with its own clock, and others
use it as well.

A client that gives up reports `DEADLINE_EXCEEDED`, as if the authority had refused. That is true as
long as nothing was or can still be committed for the mutation: the request is lost, or is a read, or
was answered otherwise. It is not true of a commit that is under way. The other way in which a
committed mutation is answered so needs no network: after a publication the engine reads the entity
back, and the deadline of the request can pass before.

## Main definitions

* `Process.providerCall` — the call of a stage and what the engine makes of its outcome
* `Network`, `Network.step` — clients, the authority, and what is under way
* `Network.Faithful` — no client gives up on what the authority may commit

## Main results

* `Process.step_eq_providerCall` — with a local provider the same mutation
* `deadlines_truthful` — in faithful runs
* `abandoned_commit_is_committed` — a run that is not
-/

namespace Patchouli

/-! ### The calls of a mutation -/

/-- A provider call, and what the engine makes of its outcome. -/
structure ProviderCall : Type 1 where
  {α : Type}
  op : Operation α
  resume : Except ProviderError α → Process

/-- The call a process makes next. -/
def Process.providerCall (env : Environment) (i : ℕ) (p : Process) : Option ProviderCall :=
  match p.stage with
  | .identify identity =>
    match p.admitted.workUnit with
    | some selected => some {
        op := .readIdempotencyInWorkUnit selected.workUnit p.admitted.consistency identity
          p.request.mutation p.readings.identified (!selected.close)
        resume := p.identified env }
    | none => some {
        op := .readIdempotency p.request.selection.scope p.admitted.consistency identity
          p.request.mutation p.readings.identified
        resume := p.identified env }
  | .read =>
    match p.admitted.workUnit with
    | some selected => some {
        op := .readEntityInWorkUnit selected.workUnit (p.key env i) p.admitted.consistency
        resume := fun outcome =>
          p.readBack env i ((outcome.mapError providerBackendError).bind workUnitValue) }
    | none => some {
        op := .readEntity (p.key env i) p.admitted.consistency
        resume := fun outcome =>
          p.readBack env i ((outcome.mapError providerBackendError).bind consistentValue) }
  | .commit prepared =>
    match p.admitted.workUnit, prepared.record with
    | some selected, _ => some {
        op := .commitEntityInWorkUnit (p.workUnitCommit selected prepared)
        resume := p.committedInWorkUnit env i prepared }
    | none, some record => some {
        op := .commitEntityIdempotent prepared.commit record p.readings.accepted
        resume := p.committedIdempotent prepared }
    | none, none => some {
        op := .commitEntity prepared.commit
        resume := p.committed prepared }
  | .publish prepared resolutions =>
    match p.admitted.workUnit with
    | some selected => some {
        op := .publishWorkUnit (p.workUnitPublish selected resolutions)
        resume := p.published prepared resolutions }
    | none => none
  | .reread prepared resolutions => some {
      op := .readEntity prepared.commit.key p.admitted.consistency
      resume := p.rereadBack env i prepared resolutions }
  | .answered _ _ => none

/-- **A step of a mutation is its call**, executed where the mutation runs. -/
theorem Process.step_eq_providerCall (env : Environment) (i : ℕ) (p : Process) (clock : Clock)
    (db : Db) : p.step env i clock db =
      match p.providerCall env i with
      | some call =>
        (call.resume (call.op.call env.search db clock).outcome,
          (call.op.call env.search db clock).db)
      | none => (p, db) := by
  unfold Process.step Process.providerCall Process.callIdentify
  cases p.stage with
  | identify identity => cases p.admitted.workUnit <;> rfl
  | read => cases p.admitted.workUnit <;> rfl
  | commit prepared =>
    dsimp only
    cases p.admitted.workUnit with
    | some selected => rfl
    | none => cases prepared.record <;> simp only <;> rfl
  | publish prepared resolutions => cases p.admitted.workUnit <;> rfl
  | reread prepared resolutions => rfl
  | answered outcome route => rfl

/-- The calls that can commit something of a mutation. -/
def Operation.Commits : {α : Type} → Operation α → Prop
  | _, .commitEntity _ | _, .commitEntityIdempotent .. | _, .commitEntityInWorkUnit _
  | _, .publishWorkUnit _ => True
  | _, _ => False

/-- The outcomes with which they did. -/
def Operation.Accepts : {α : Type} → Operation α → Except ProviderError α → Prop
  | _, .commitEntity _, outcome => outcome = .ok .committed
  | _, .commitEntityIdempotent .., outcome => outcome = .ok .committed
  | _, .commitEntityInWorkUnit _, outcome => outcome = .ok .staged ∨ outcome = .ok .published ∨
      ∃ conflicts, outcome = .ok (.publicationConflict conflicts)
  | _, .publishWorkUnit _, outcome => outcome = .ok .published
  | _, _, _ => False

theorem Operation.Accepts.commits {α : Type} {op : Operation α} {outcome : Except ProviderError α}
    (h : op.Accepts outcome) : op.Commits := by
  cases op <;> trivial

/-! ### The network -/

/-- What is under way between a client and the authority: `lost` if nothing is. -/
inductive Wire where
  | unsent
  | requested
  | replied (next : Process)
  | lost

structure Client where
  process : Process
  wire : Wire

/-- A call the authority executed. -/
structure Executed : Type 1 where
  client : ℕ
  {α : Type}
  op : Operation α
  outcome : Except ProviderError α

/-- Clients and authority. `late` are the requests whose clients gave up; `executed` is what the
authority did so far. -/
structure Network : Type 1 where
  db : Db
  clients : List Client
  late : List (ℕ × ProviderCall)
  executed : List Executed

inductive NetworkEvent where
  | arrive (request : Request) (readings : Readings)
  | send (i : ℕ)
  | lose (i : ℕ)
  | execute (i : ℕ) (clock : Clock)
  | deliver (i : ℕ)
  | giveUp (i : ℕ) (failure : TransportFailure) (detail : String)
  | executeLate (k : ℕ) (clock : Clock)
  | loseLate (k : ℕ)
  | elsewhere (db : Db)

namespace Network

/-- The authority has committed something of a mutation. -/
def Accepted (n : Network) (i : ℕ) : Prop :=
  ∃ e ∈ n.executed, e.client = i ∧ e.op.Accepts e.outcome

variable (env : Environment) (endpoint : String) (n : Network)

/-- The reply to an executed call arrives as this. -/
def reply (call : ProviderCall) (outcome : Except ProviderError call.α) : Process :=
  call.resume (receive call.op.operation endpoint (respond outcome))

/-- A client gives up on its call. -/
def abandon (call : ProviderCall) (failure : TransportFailure) (detail : String) :
    Client :=
  ⟨call.resume (.error (transportError call.op.operation endpoint failure detail)), .unsent⟩

/-- One event. -/
def step : NetworkEvent → Network
  | .arrive request readings =>
    if request.selection.KeyInScope env.scopeOfKey then
      { n with clients := n.clients ++ [⟨request.arrive env readings, .unsent⟩] }
    else n
  | .send i =>
    match n.clients[i]? with
    | some ⟨p, .unsent⟩ =>
      if (p.providerCall env i).isSome then { n with clients := n.clients.set i ⟨p, .requested⟩ }
      else n
    | _ => n
  | .lose i =>
    match n.clients[i]? with
    | some ⟨p, .requested⟩ | some ⟨p, .replied _⟩ =>
      { n with clients := n.clients.set i ⟨p, .lost⟩ }
    | _ => n
  | .execute i clock =>
    match n.clients[i]? with
    | some ⟨p, .requested⟩ =>
      match p.providerCall env i with
      | some call =>
        let executed := call.op.call env.search n.db clock
        { n with
          db := executed.db
          clients := n.clients.set i ⟨p, .replied (reply endpoint call executed.outcome)⟩
          executed := n.executed ++ [⟨i, call.op, executed.outcome⟩] }
      | none => n
    | _ => n
  | .deliver i =>
    match n.clients[i]? with
    | some ⟨_, .replied next⟩ => { n with clients := n.clients.set i ⟨next, .unsent⟩ }
    | _ => n
  | .giveUp i failure detail =>
    match n.clients[i]? with
    | some ⟨p, wire⟩ =>
      match wire, p.providerCall env i with
      | .requested, some call =>
        { n with
          clients := n.clients.set i (abandon endpoint call failure detail)
          late := n.late ++ [(i, call)] }
      | .replied _, some call | .lost, some call =>
        { n with clients := n.clients.set i (abandon endpoint call failure detail) }
      | _, _ => n
    | none => n
  | .executeLate k clock =>
    match n.late[k]? with
    | some (i, call) =>
      let executed := call.op.call env.search n.db clock
      { n with
        db := executed.db
        late := n.late.eraseIdx k
        executed := n.executed ++ [⟨i, call.op, executed.outcome⟩] }
    | none => n
  | .loseLate k => { n with late := n.late.eraseIdx k }
  | .elsewhere db => { n with db }

/-- An event after which no answer is untrue. A client gives up for its timeout only where nothing of
its mutation was committed and its request, if it is under way, commits nothing; and the read that
follows a publication is executed before the deadline. -/
def Faithful : NetworkEvent → Prop
  | .giveUp i .timeout _ => ¬ n.Accepted i ∧
      ∀ p call, n.clients[i]? = some ⟨p, .requested⟩ → p.providerCall env i = some call →
        ¬ call.op.Commits
  | .execute i clock => ∀ p prepared resolutions, n.clients[i]? = some ⟨p, .requested⟩ →
      p.stage = .reread prepared resolutions → ∀ d ∈ p.admitted.consistency.deadlineUnixMs,
        clock.observe < d ∧ clock.commit < d
  | _ => True

end Network

/-- The networks reached by runs whose events all meet a condition. -/
inductive NetworkReaches (env : Environment) (endpoint : String)
    (allowed : Network → NetworkEvent → Prop) : Network → Prop
  | start (db : Db) : NetworkReaches env endpoint allowed ⟨db, [], [], []⟩
  | step {n : Network} (event : NetworkEvent) (h : NetworkReaches env endpoint allowed n)
      (hallowed : allowed n event) : NetworkReaches env endpoint allowed (n.step env endpoint event)

/-! ### Errors of the calls after a commit -/

section Errors

variable {α : Type} {E : ProviderError → Prop}

theorem transaction_outcome_meets {db : Db} {body : Except ProviderError (Finished α)}
    (h : body.Meets E fun _ => True) : (transaction db body).outcome.Meets E fun _ => True := by
  unfold transaction
  split
  · trivial
  · trivial
  · exact h

theorem sweepThen_meets {db : Db} {clock : Clock} {call : Db → Reply α}
    (hinternal : ∀ error : ProviderError, error.reason = .internal → E error)
    (hcall : ∀ db, (call db).outcome.Meets E fun _ => True) :
    (sweepThen db clock call).outcome.Meets E fun _ => True := by
  have htime : ∀ value message, (sqliteTime value message).Meets E fun _ => True := by
    intro value message
    unfold sqliteTime
    split
    · trivial
    · exact hinternal _ rfl
  have hexpire : ∀ (db : Db) identity now, (db.expireWorkUnit identity now).Meets E
      fun _ => True := by
    refine fun db identity now => (htime now _).bind fun now _ =>
      Except.Meets.bind (P := fun _ => True) ?_ fun db _ => trivial
    unfold Db.deleteStagedVersions require
    split
    · trivial
    · exact hinternal _ rfl
  have hbind : (bindUnsigned clock.sweep).Meets E fun _ => True := by
    unfold bindUnsigned
    split
    · trivial
    · exact hinternal _ rfl
  have hsweep : (db.sweepExpiredWorkUnits clock.sweep).outcome.Meets E fun _ => True :=
    transaction_outcome_meets <| Except.Meets.bind (P := fun _ => True)
      (hbind.bind fun _ _ => Except.Meets.foldlM trivial fun db _ _ _ => hexpire db _ _)
      fun _ _ => trivial
  unfold sweepThen
  split
  · exact hcall _
  · rename_i error swept heq
    rw [heq] at hsweep
    exact hsweep

/-- A read before its deadline does not fail by it. -/
theorem readEntity_timely (db : Db) {clock : Clock} (key : EntityKey)
    {consistency : ReadConsistency}
    (h : ∀ d ∈ consistency.deadlineUnixMs, clock.observe < d ∧ clock.commit < d) :
    (readEntity db clock key consistency).outcome.Meets
      (fun error => error.reason ≠ .deadlineExceeded) fun _ => True := by
  refine sweepThen_meets (fun error hinternal => hinternal ▸ fun h => nomatch h) fun db =>
    transaction_outcome_meets <| Except.Meets.bind (P := fun _ => True) ?_ fun observed _ => ?_
  · have hopen : ¬ consistency.deadlineUnixMs.any (· ≤ clock.observe) := by
      cases hd : consistency.deadlineUnixMs with
      | none => simp
      | some d =>
        have hlt := (h d hd).1
        simpa using hlt
    unfold consistencyObservation
    rw [if_neg hopen]
    split
    · trivial
    · split
      · trivial
      · split <;> trivial
  · cases observed with
    | none => trivial
    | some observation =>
      dsimp only [commitBeforeDeadline]
      split
      · rename_i d hd
        rw [if_neg (Nat.not_le.mpr (h d hd).2)]
        trivial
      · trivial

theorem publishWorkUnit_timely (db : Db) (clock : Clock) (publish : WorkUnitPublish) :
    (publishWorkUnit db clock publish).outcome.Meets
      (fun error => error.reason ≠ .deadlineExceeded) fun _ => True := by
  unfold publishWorkUnit
  dsimp only [Except.mapError]
  split
  · exact fun h => nomatch h
  · trivial

end Errors

theorem providerBackendError_timely {error : ProviderError}
    (h : error.reason ≠ .deadlineExceeded) :
    (providerBackendError error).reason ≠ .deadlineExceeded := by
  unfold providerBackendError
  split
  · exact absurd ‹_› h
  · exact fun h => nomatch h

/-! ### What a reply leads to -/

/-- A mutation past its commit: it is answered, and not with a deadline, or it publishes. -/
def Stage.Past : Stage → Prop
  | .publish .. | .reread .. => True
  | .answered outcome _ => Timely outcome
  | _ => False

section Replies

variable {env : Environment} {i : ℕ} {p : Process} {call : ProviderCall}

/-- Whatever the call, its error is the answer. -/
theorem Process.providerCall_error (hcall : p.providerCall env i = some call)
    (error : ProviderError) : ∃ route,
      (call.resume (.error error)).stage = .answered (.error (providerBackendError error)) route := by
  unfold Process.providerCall at hcall
  split at hcall
  · split at hcall <;> cases hcall <;> exact ⟨_, rfl⟩
  · split at hcall <;> cases hcall <;> exact ⟨_, rfl⟩
  · split at hcall <;> cases hcall <;> exact ⟨_, rfl⟩
  · split at hcall
    · cases hcall
      exact ⟨_, rfl⟩
    · cases hcall
  · cases hcall
    exact ⟨_, rfl⟩
  · cases hcall

/-- **A mutation that was accepted is past its commit** when the reply arrives, and stays so. -/
theorem Process.reply_past (endpoint : String) (hcall : p.providerCall env i = some call) (db : Db)
    (clock : Clock) (h : call.op.Accepts (call.op.call env.search db clock).outcome ∨ p.stage.Past)
    (hreread : ∀ prepared resolutions, p.stage = .reread prepared resolutions →
      ∀ d ∈ p.admitted.consistency.deadlineUnixMs, clock.observe < d ∧ clock.commit < d) :
    (Network.reply endpoint call (call.op.call env.search db clock).outcome).stage.Past := by
  unfold Network.reply
  rw [receive_respond]
  unfold Process.providerCall at hcall
  split at hcall
  · rename_i identity hstage
    exfalso
    split at hcall <;> cases hcall <;> simp [Operation.Accepts, hstage, Stage.Past] at h
  · rename_i hstage
    exfalso
    split at hcall <;> cases hcall <;> simp [Operation.Accepts, hstage, Stage.Past] at h
  · rename_i prepared hstage
    have haccepts := h.resolve_right (by simp [hstage, Stage.Past])
    split at hcall
    · cases hcall
      rcases haccepts with hstaged | hpublished | ⟨conflicts, hconflicts⟩
      · rw [hstaged]
        trivial
      · rw [hpublished]
        trivial
      · rw [hconflicts]
        have htimely : Timely (resolvePublicationConflicts env.automerge env.toText env.config
            (env.fresh i) p.readings.resolved conflicts) :=
          resolvePublicationConflicts_timely _ _ _
        dsimp only [Except.mapError, Process.committedInWorkUnit]
        split
        · rename_i error heq
          exact htimely.of_error heq
        · trivial
    · cases hcall
      have hcommitted : _ = Except.ok IdempotentCommitOutcome.committed := haccepts
      rw [hcommitted]
      trivial
    · cases hcall
      have hcommitted : _ = Except.ok EntityCommitOutcome.committed := haccepts
      rw [hcommitted]
      trivial
  · rename_i prepared resolutions hstage
    split at hcall
    · rename_i selected hselected
      cases hcall
      have htimely := publishWorkUnit_timely db clock (p.workUnitPublish selected resolutions)
      dsimp only [Operation.call]
      generalize (publishWorkUnit db clock (p.workUnitPublish selected resolutions)).outcome =
        outcome at htimely
      rcases outcome with error | outcome
      · exact providerBackendError_timely htimely
      · cases outcome <;> first | trivial | exact (fun h => nomatch h)
    · cases hcall
  · rename_i prepared resolutions hstage
    cases hcall
    have htimely := readEntity_timely db prepared.commit.key (hreread prepared resolutions hstage)
    dsimp only [Operation.call]
    generalize (readEntity db clock prepared.commit.key p.admitted.consistency).outcome =
      outcome at htimely
    rcases outcome with error | read
    · exact providerBackendError_timely htimely
    · cases read with
      | read snapshot observation => exact rereadResult_timely _ _ _ _
      | unavailable => exact fun h => nomatch h
  · cases hcall

/-- A client that gives up otherwise than for its timeout is past its commit. -/
theorem Network.abandon_past (endpoint : String) (hcall : p.providerCall env i = some call)
    {failure : TransportFailure} (hfailure : failure ≠ .timeout) (detail : String) :
    (Network.abandon endpoint call failure detail).process.stage.Past := by
  obtain ⟨route, hstage⟩ := Process.providerCall_error hcall
    (transportError call.op.operation endpoint failure detail)
  unfold Network.abandon
  rw [hstage]
  refine providerBackendError_timely ?_
  cases failure with
  | timeout => exact absurd rfl hfailure
  | connect => exact fun h => nomatch h
  | request => exact fun h => nomatch h
  | other => exact fun h => nomatch h

theorem Network.abandon_answered (endpoint : String) (hcall : p.providerCall env i = some call)
    (failure : TransportFailure) (detail : String) :
    (Network.abandon endpoint call failure detail).process.providerCall env i = none := by
  obtain ⟨route, hstage⟩ := Process.providerCall_error hcall
    (transportError call.op.operation endpoint failure detail)
  unfold Network.abandon Process.providerCall
  rw [hstage]

end Replies

/-! ### Runs -/

/-- Who is answered `DEADLINE_EXCEEDED` has nothing committed. -/
def Network.DeadlinesTruthful (n : Network) : Prop :=
  ∀ i client error route, n.clients[i]? = some client →
    client.process.stage = .answered (.error error) route → error.reason = .deadlineExceeded →
      ¬ n.Accepted i


/-- The authority has committed something of a mutation, or may still. -/
def Network.MayCommit (n : Network) (i : ℕ) : Prop :=
  n.Accepted i ∨ ∃ late ∈ n.late, late.1 = i ∧ late.2.op.Commits

/-- A client whose mutation is past its commit, as far as the client will know. -/
def Client.Past (client : Client) : Prop :=
  match client.wire with
  | .unsent | .requested => client.process.stage.Past
  | .replied next => next.stage.Past
  | .lost => True

/-- A client in its place: it has a call if it has sent one, and is past its commit if something of
its mutation may be committed. -/
structure Client.InPlace (env : Environment) (n : Network) (i : ℕ) (client : Client) : Prop where
  sent : client.wire ≠ .unsent → (client.process.providerCall env i).isSome
  past : n.MayCommit i → client.Past

namespace Network

/-- The networks of faithful runs. -/
structure Consistent (env : Environment) (n : Network) : Prop where
  known : ∀ e ∈ n.executed, e.client < n.clients.length
  late : ∀ late ∈ n.late, ∃ client, n.clients[late.1]? = some client ∧ client.wire = .unsent ∧
    client.process.providerCall env late.1 = none
  clients : ∀ i (client : Client), n.clients[i]? = some client → client.InPlace env n i

variable {env : Environment} {endpoint : String} {n n' : Network} {i : ℕ}

theorem MayCommit.lt (hmay : n.MayCommit i) (h : n.Consistent env) : i < n.clients.length := by
  rcases hmay with ⟨e, he, hclient, -⟩ | ⟨late, hlate, hclient, -⟩
  · exact hclient ▸ h.known e he
  · obtain ⟨client, hget, -⟩ := h.late late hlate
    exact hclient ▸ (List.getElem?_eq_some_iff.mp hget).1

/-- No request of a client that waits for a reply is late. -/
theorem Consistent.not_late (h : n.Consistent env) {client : Client}
    (hget : n.clients[i]? = some client) (hwire : client.wire ≠ .unsent) :
    ∀ late ∈ n.late, late.1 ≠ i := by
  rintro late hlate rfl
  obtain ⟨client', hget', hunsent, -⟩ := h.late late hlate
  rw [hget] at hget'
  cases hget'
  exact hwire hunsent

theorem MayCommit.accepted (hmay : n.MayCommit i) (h : ∀ late ∈ n.late, late.1 ≠ i) :
    n.Accepted i :=
  hmay.resolve_right fun ⟨late, hlate, hi, _⟩ => h late hlate hi

/-- What one more executed call may have committed. -/
theorem MayCommit.of_executed {executed : Executed} (hmay : n'.MayCommit i)
    (hexecuted : n'.executed = n.executed ++ [executed]) (hlate : n'.late ⊆ n.late) :
    n.MayCommit i ∨ executed.client = i ∧ executed.op.Accepts executed.outcome := by
  rcases hmay with ⟨e, he, hclient, haccepts⟩ | ⟨late, hl, hrest⟩
  · rw [hexecuted, List.mem_append, List.mem_singleton] at he
    rcases he with hold | rfl
    · exact .inl (.inl ⟨e, hold, hclient, haccepts⟩)
    · exact .inr ⟨hclient, haccepts⟩
  · exact .inl (.inr ⟨late, hlate hl, hrest⟩)

/-- One client changes, and nothing that is about another one. -/
theorem Consistent.set (h : n.Consistent env) {old client : Client}
    (hget : n.clients[i]? = some old) (hclients : n'.clients = n.clients.set i client)
    (hknown : ∀ e ∈ n'.executed, e ∈ n.executed ∨ e.client = i)
    (hlate : ∀ late ∈ n'.late, late ∈ n.late ∨ late.1 = i)
    (hanswered : (∃ late ∈ n'.late, late.1 = i) →
      client.wire = .unsent ∧ client.process.providerCall env i = none)
    (hclient : client.InPlace env n' i) : n'.Consistent env := by
  have hlt : i < n.clients.length := (List.getElem?_eq_some_iff.mp hget).1
  have hself : n'.clients[i]? = some client := by
    rw [hclients, List.getElem?_set_self hlt]
  have hother : ∀ j, j ≠ i → n'.clients[j]? = n.clients[j]? := fun j hj => by
    rw [hclients, List.getElem?_set_ne (Ne.symm hj)]
  have hmay : ∀ j, j ≠ i → n'.MayCommit j → n.MayCommit j := by
    rintro j hj (⟨e, he, hej, haccepts⟩ | ⟨late, hl, hlj, hcommits⟩)
    · exact .inl ⟨e, (hknown e he).resolve_right (hej ▸ hj), hej, haccepts⟩
    · exact .inr ⟨late, (hlate late hl).resolve_right (hlj ▸ hj), hlj, hcommits⟩
  refine ⟨fun e he => ?_, fun late hl => ?_, fun j c hc => ?_⟩
  · rw [hclients, List.length_set]
    rcases hknown e he with hold | rfl
    · exact h.known e hold
    · exact hlt
  · by_cases hi : late.1 = i
    · obtain ⟨hunsent, hnone⟩ := hanswered ⟨late, hl, hi⟩
      exact ⟨client, hi ▸ hself, hunsent, hi ▸ hnone⟩
    · obtain ⟨c, hc, hrest⟩ := h.late late ((hlate late hl).resolve_right hi)
      exact ⟨c, by rw [hother _ hi, hc], hrest⟩
  · by_cases hj : j = i
    · subst hj
      rw [hself] at hc
      cases hc
      exact hclient
    · rw [hother j hj] at hc
      have hold := h.clients j c hc
      exact ⟨hold.sent, fun hm => hold.past (hmay j hj hm)⟩

/-- One client changes, and nothing else. -/
theorem Consistent.set_only (h : n.Consistent env) {old client : Client}
    (hget : n.clients[i]? = some old) (hold : old.wire ≠ .unsent ∨
      (old.process.providerCall env i).isSome) (hclient : client.InPlace env n i) :
    { n with clients := n.clients.set i client : Network }.Consistent env := by
  refine h.set hget rfl (fun e he => .inl he) (fun late hl => .inl hl) ?_ ⟨hclient.sent, hclient.past⟩
  rintro ⟨late, hl, rfl⟩
  obtain ⟨c, hc, hunsent, hnone⟩ := h.late late hl
  rw [hget] at hc
  cases hc
  rcases hold with hwire | hsome
  · exact absurd hunsent hwire
  · rw [hnone] at hsome
    cases hsome

/-- Requests that are late no more commit nothing new. -/
theorem Consistent.of_late (h : n.Consistent env) (hclients : n'.clients = n.clients)
    (hlate : n'.late ⊆ n.late) (hknown : ∀ e ∈ n'.executed, e.client < n.clients.length)
    (hmay : ∀ j, n'.MayCommit j → n.MayCommit j) : n'.Consistent env := by
  refine ⟨fun e he => hclients ▸ hknown e he, fun late hl => hclients ▸ h.late late (hlate hl), ?_⟩
  intro j c hc
  rw [hclients] at hc
  have hold := h.clients j c hc
  exact ⟨hold.sent, fun hm => hold.past (hmay j hm)⟩

theorem arrive_consistent (h : n.Consistent env) (request : Request) (readings : Readings) :
    (n.step env endpoint (.arrive request readings)).Consistent env := by
  dsimp only [step]
  split
  · have hlt : n.clients.length <
        (n.clients ++ [(⟨request.arrive env readings, .unsent⟩ : Client)]).length := by
      simp
    refine ⟨fun e he => (h.known e he).trans hlt, fun late hl => ?_, fun j c hc => ?_⟩
    · obtain ⟨c, hc, hrest⟩ := h.late late hl
      exact ⟨c, by rw [List.getElem?_append_left (List.getElem?_eq_some_iff.mp hc).1, hc], hrest⟩
    · by_cases hj : j < n.clients.length
      · rw [List.getElem?_append_left hj] at hc
        exact ⟨(h.clients j c hc).sent, (h.clients j c hc).past⟩
      · have hnot : ¬ n.MayCommit j := fun hmay => hj (hmay.lt h)
        rw [List.getElem?_append_right (Nat.not_lt.mp hj)] at hc
        refine ⟨fun hwire => ?_, fun hmay => absurd hmay hnot⟩
        obtain rfl := List.mem_singleton.mp (List.mem_of_getElem? hc)
        exact absurd rfl hwire
  · exact h

theorem execute_consistent (h : n.Consistent env) {clock : Clock}
    (hfaithful : n.Faithful env (.execute i clock)) :
    (n.step env endpoint (.execute i clock)).Consistent env := by
  dsimp only [step]
  split
  · rename_i p hget
    cases hcall : p.providerCall env i with
    | none => exact h
    | some call =>
      have hlate := h.not_late hget (fun hw => nomatch hw)
      refine h.set hget rfl (fun e he => ?_) (fun late hl => .inl hl) ?_ ⟨fun _ => ?_, fun hmay => ?_⟩
      · exact (List.mem_append.mp he).imp_right fun hnew => by
          rw [List.mem_singleton.mp hnew]
      · rintro ⟨late, hl, hi⟩
        exact absurd hi (hlate late hl)
      · rw [hcall]
        rfl
      · refine Process.reply_past endpoint hcall n.db clock ?_ fun prepared resolutions hstage =>
          hfaithful p prepared resolutions hget hstage
        rcases hmay.of_executed rfl (fun _ hl => hl) with hold | ⟨-, haccepts⟩
        · exact .inr ((h.clients i _ hget).past hold)
        · exact .inl haccepts
  · exact h

theorem giveUp_consistent (h : n.Consistent env) {failure : TransportFailure} {detail : String}
    (hfaithful : n.Faithful env (.giveUp i failure detail)) :
    (n.step env endpoint (.giveUp i failure detail)).Consistent env := by
  dsimp only [step]
  split
  · rename_i p wire hget
    have hanswered : ∀ call, p.providerCall env i = some call →
        (abandon endpoint call failure detail).wire = .unsent ∧
          (abandon endpoint call failure detail).process.providerCall env i = none :=
      fun call hcall => ⟨rfl, abandon_answered endpoint hcall failure detail⟩
    have hpast : wire ≠ .unsent → ∀ call, p.providerCall env i = some call →
        (n.Accepted i ∨ wire = .requested ∧ call.op.Commits) →
          (abandon endpoint call failure detail).Past := by
      rintro - call hcall hcommits
      refine abandon_past endpoint hcall ?_ detail
      rintro rfl
      obtain ⟨hnot, hrequested⟩ := hfaithful
      rcases hcommits with haccepted | ⟨rfl, hcommits⟩
      · exact hnot haccepted
      · exact hrequested p call hget hcall hcommits
    split
    · rename_i call hcall
      have hlate := h.not_late hget (fun hw => nomatch hw)
      refine h.set hget rfl (fun e he => .inl he) (fun late hl => ?_) (fun _ => hanswered call hcall)
        ⟨fun hwire => absurd rfl hwire, fun hmay => hpast (fun hw => nomatch hw) call hcall ?_⟩
      · exact (List.mem_append.mp hl).imp_right fun hnew => by
          rw [List.mem_singleton.mp hnew]
      · rcases hmay with haccepted | ⟨late, hl, hi, hcommits⟩
        · exact .inl haccepted
        · rcases List.mem_append.mp hl with hold | hnew
          · exact absurd hi (hlate late hold)
          · obtain rfl := List.mem_singleton.mp hnew
            exact .inr ⟨rfl, hcommits⟩
    · rename_i next call hcall
      have hlate := h.not_late hget (fun hw => nomatch hw)
      exact h.set_only hget (.inl fun hw => nomatch hw) ⟨fun hwire => absurd rfl hwire, fun hmay =>
        hpast (fun hw => nomatch hw) call hcall (.inl (hmay.accepted hlate))⟩
    · rename_i call hcall
      have hlate := h.not_late hget (fun hw => nomatch hw)
      exact h.set_only hget (.inl fun hw => nomatch hw) ⟨fun hwire => absurd rfl hwire, fun hmay =>
        hpast (fun hw => nomatch hw) call hcall (.inl (hmay.accepted hlate))⟩
    · exact h
  · exact h

/-- **A step of a faithful run.** -/
theorem step_consistent (h : n.Consistent env) {event : NetworkEvent}
    (hfaithful : n.Faithful env event) : (n.step env endpoint event).Consistent env := by
  cases event with
  | arrive request readings => exact arrive_consistent h request readings
  | send i =>
    dsimp only [step]
    split
    · rename_i p hget
      split
      · rename_i hsome
        exact h.set_only hget (.inr hsome) ⟨fun _ => hsome, (h.clients i _ hget).past⟩
      · exact h
    · exact h
  | lose i =>
    dsimp only [step]
    split
    · rename_i p hget
      exact h.set_only hget (.inl fun hw => nomatch hw)
        ⟨fun _ => (h.clients i _ hget).sent (fun hw => nomatch hw), fun _ => trivial⟩
    · rename_i p next hget
      exact h.set_only hget (.inl fun hw => nomatch hw)
        ⟨fun _ => (h.clients i _ hget).sent (fun hw => nomatch hw), fun _ => trivial⟩
    · exact h
  | execute i clock => exact execute_consistent h hfaithful
  | deliver i =>
    dsimp only [step]
    split
    · rename_i p next hget
      exact h.set_only hget (.inl fun hw => nomatch hw)
        ⟨fun hwire => absurd rfl hwire, (h.clients i _ hget).past⟩
    · exact h
  | giveUp i failure detail => exact giveUp_consistent h hfaithful
  | executeLate k clock =>
    dsimp only [step]
    split
    · rename_i i call hget
      have hmem := List.mem_of_getElem? hget
      have hmay : n.MayCommit i ∨ ¬ call.op.Commits := by
        by_cases hcommits : call.op.Commits
        · exact .inl (.inr ⟨_, hmem, rfl, hcommits⟩)
        · exact .inr hcommits
      refine h.of_late rfl (List.eraseIdx_subset) (fun e he => ?_) fun j hj => ?_
      · rcases List.mem_append.mp he with hold | hnew
        · exact h.known e hold
        · obtain ⟨c, hc, -⟩ := h.late _ hmem
          rw [List.mem_singleton.mp hnew]
          exact (List.getElem?_eq_some_iff.mp hc).1
      · rcases hj.of_executed rfl List.eraseIdx_subset with hold | ⟨rfl, haccepts⟩
        · exact hold
        · exact .inr ⟨_, hmem, rfl, haccepts.commits⟩
    · exact h
  | loseLate k =>
    refine h.of_late rfl List.eraseIdx_subset h.known ?_
    rintro j (haccepted | ⟨late, hl, hrest⟩)
    · exact .inl haccepted
    · exact .inr ⟨late, List.eraseIdx_subset hl, hrest⟩
  | elsewhere db =>
    exact ⟨h.known, h.late, fun j c hc => ⟨(h.clients j c hc).sent, (h.clients j c hc).past⟩⟩

end Network

/-- **The invariant of faithful runs.** -/
theorem NetworkReaches.consistent {env : Environment} {endpoint : String} {n : Network}
    (h : NetworkReaches env endpoint (Network.Faithful env) n) : n.Consistent env := by
  induction h with
  | start db =>
    exact ⟨fun e he => (nomatch he), fun late hl => (nomatch hl), fun j c hc => (nomatch hc)⟩
  | step event _ hfaithful ih => exact Network.step_consistent ih hfaithful

theorem Network.Consistent.deadlinesTruthful {env : Environment} {n : Network}
    (h : n.Consistent env) : n.DeadlinesTruthful := by
  intro i client error route hget hstage hreason haccepted
  have hplace := h.clients i client hget
  have hunsent : client.wire = .unsent := by
    by_contra hwire
    have hsome := hplace.sent hwire
    unfold Process.providerCall at hsome
    rw [hstage] at hsome
    cases hsome
  have hpast := hplace.past (.inl haccepted)
  unfold Client.Past at hpast
  rw [hunsent] at hpast
  simp only [hstage, Stage.Past] at hpast
  exact hpast hreason

/-- The network after some events. -/
def Network.after (env : Environment) (endpoint : String) (events : List NetworkEvent) : Network :=
  events.foldl (fun n event => n.step env endpoint event) ⟨Db.empty, [], [], []⟩

theorem Network.after_reaches (env : Environment) (endpoint : String) (events : List NetworkEvent) :
    NetworkReaches env endpoint (fun _ _ => True) (Network.after env endpoint events) := by
  induction events using List.reverseRecOn with
  | nil => exact .start _
  | append_singleton events event ih =>
    have hlast : Network.after env endpoint (events ++ [event]) =
        (Network.after env endpoint events).step env endpoint event := by
      simp only [Network.after, List.foldl_append, List.foldl_cons, List.foldl_nil]
    rw [hlast]
    exact .step event ih trivial

/-- **Deadlines stay truthful in faithful runs**, and what is delivered, in any run, is the value or
the reason the authority's provider returned. -/
theorem deadlines_truthful {env : Environment} {endpoint : String} {n : Network}
    (h : NetworkReaches env endpoint (Network.Faithful env) n) :
    n.DeadlinesTruthful ∧
      ∀ {α : Type} (op : Operation α) (outcome : Except ProviderError α),
        (receive op.operation endpoint (respond outcome)).mapError (·.reason) =
          outcome.mapError (·.reason) := by
  refine ⟨h.consistent.deadlinesTruthful, fun op outcome => ?_⟩
  rw [receive_respond]
  cases outcome with
  | ok value => rfl
  | error error => rfl

/-- The request to create a note is lost, and its client gives up. -/
theorem lost_commit_is_not_committed :
    ∃ n, NetworkReaches noteEnvironment "/" (Network.Faithful noteEnvironment) n ∧
      (∃ client error route, n.clients[0]? = some client ∧
        client.process.stage = .answered (.error error) route ∧
          error.reason = .deadlineExceeded) ∧
      n.DeadlinesTruthful := by
  have hstart : NetworkReaches noteEnvironment "/" (Network.Faithful noteEnvironment) _ :=
    .start Db.empty
  have hsent := (hstart.step (.arrive (createNote .null none false) (readingsAt 5)) trivial).step
    (.send 0) trivial
  have hread := hsent.step (.execute 0 (clockAt 5)) fun p prepared resolutions hget hstage => by
    cases hget
    cases hstage
  have hlost := ((hread.step (.deliver 0) trivial).step (.send 0) trivial).step (.lose 0) trivial
  have hrun := hlost.step (.giveUp 0 .timeout "operation timed out") ⟨?_, ?_⟩
  · exact ⟨_, hrun, ⟨_, _, _, rfl, rfl, rfl⟩, (deadlines_truthful hrun).1⟩
  · rintro ⟨e, he, -, haccepts⟩
    obtain rfl := List.mem_singleton.mp he
    exact haccepts
  · intro p call hget
    cases hget

/-! ### A commit that is under way -/

/-- The client of a note gives up on its commit, and the request arrives. -/
def abandonedNote : Network :=
  Network.after noteEnvironment "/" [.arrive (createNote .null none false) (readingsAt 5),
    .send 0, .execute 0 (clockAt 5), .deliver 0,
    .send 0, .giveUp 0 .timeout "operation timed out", .executeLate 0 (clockAt 5)]

/-- **A note whose creation was answered `DEADLINE_EXCEEDED` is there.** -/
theorem abandoned_commit_is_committed :
    ∃ n, NetworkReaches noteEnvironment "/" (fun _ _ => True) n ∧ ¬ n.DeadlinesTruthful := by
  refine ⟨abandonedNote, Network.after_reaches _ _ _, fun htruthful => ?_⟩
  have hanswered : ∃ client error route, abandonedNote.clients[0]? = some client ∧
      client.process.stage = .answered (.error error) route ∧
        error.reason = .deadlineExceeded := ⟨_, _, _, rfl, rfl, rfl⟩
  have haccepted : abandonedNote.Accepted 0 := ⟨_, .tail _ (.head _), rfl, rfl⟩
  obtain ⟨client, error, route, hget, hstage, hreason⟩ := hanswered
  exact htruthful 0 client error route hget hstage hreason haccepted

end Patchouli
