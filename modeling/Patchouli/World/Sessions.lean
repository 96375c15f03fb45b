import Patchouli.Sqlite.Sessions
import Patchouli.World.ChangeLog

/-!
# Session and causal guarantees

A read is compared with what happened before it in the run: reads that were served to the same
session, publications that named the session among their writers, publications whose tokens it
requires. What it returns is compared with the states of the run: at the frontier the read was
served at, that is what was published, and a unit adds what it has staged.

A publication names its writers in two ways. An immediate commit carries them. A unit keeps, for
each entity, the writers of the last mutation it staged, and names them when it is published.

## Main definitions

* `NamesSession` — a publication that names a session among its writers
* `SessionGuarantees` — what the sessions and tokens of a read guarantee
* `ReadValues` — what reads return

## Main results

* `session_and_causal_guarantees`
-/

namespace Patchouli

open Db Relation

variable {env : Environment} {w w' : World} {event : Event} {scope : String}
  {consistency : ReadConsistency} {frontier : ℕ} {new : Db}

/-! ### Marks along a run -/

theorem Reachable.tokenInv (hlaw : env.automerge.Lawful) (h : Reachable env w) : TokenInv w.db := by
  induction h with
  | start => exact TokenInv.empty
  | step event hbefore _ ih =>
    have hsound := Reachable.sound hlaw hbefore
    exact (Effects.rises hlaw hsound.inv (World.step_effects hlaw hsound event)).2 ih

theorem Runs.rises (hlaw : env.automerge.Lawful) (h : Runs env w w') (hreach : Reachable env w) :
    Rises w.db w'.db := by
  induction h with
  | refl => exact .refl w.db
  | tail hbefore hstep ih =>
    obtain ⟨event, rfl⟩ := hstep
    have hsound := (Runs.reachable hbefore hreach).sound hlaw
    exact ih.trans (Effects.rises hlaw hsound.inv (World.step_effects hlaw hsound event)).1

/-- The baseline of a unit is the frontier of a state of the run. -/
theorem Reachable.baseline_seen (hlaw : env.automerge.Lawful) (h : Reachable env w) :
    ∀ u ∈ w.db.workUnits, ∃ w₀, Reachable env w₀ ∧ Runs env w₀ w ∧
      u.baselineCursor = w₀.db.currentScopeCursor u.scopeJson := by
  induction h with
  | start => simp [World.start, Db.empty]
  | @step w event hbefore _ ih =>
    intro u hu
    have hreach : Reachable env w := hbefore
    rcases World.step_opens hlaw (hreach.sound hlaw) event u hu with ⟨u₀, hu₀, hev⟩ | hbaseline
    · obtain ⟨w₀, hreach₀, hruns, hbaseline⟩ := ih u₀ hu₀
      refine ⟨w₀, hreach₀, hruns.tail ⟨event, rfl⟩, ?_⟩
      rw [hev.baselineCursor, hev.scopeJson]
      exact hbaseline
    · exact ⟨w, hreach, .single ⟨event, rfl⟩, hbaseline⟩

/-! ### Publications and their writers -/

/-- The publication of an event names a session among the writers of a change: the request of an
immediate commit, or a mutation staged in the unit that the event commits. -/
def NamesSession (env : Environment) (w : World) (event : Event) (change : ChangeRow)
    (session : String) : Prop :=
  (∃ i clock p prepared, event = .advance i clock ∧ w.processes[i]? = some p ∧
    p.admitted.workUnit = none ∧ p.stage = .commit prepared ∧
    session ∈ prepared.commit.writeSessionKeys) ∨
  ∃ unit e keys, ¬ w.db.Committed unit ∧ (w.step env event).db.Committed unit ∧
    (w.step env event).db.unitEntity? unit change.key = some e ∧
    e.writeSessionKeysJson = some keys ∧ session ∈ keys

/-- An event that prunes the log adds nothing to it. -/
theorem Publication.of_prunes (hlaw : env.automerge.Lawful) (hreach : Reachable env w)
    {added : List ChangeRow} (h : Publication w.db (w.step env event).db added)
    (hprunes : event.Prunes) : added = [] := by
  have hupkeeps : Upkeeps (w.brings env event) w.db (w.step env event).db :=
    event.prunes_upkeeps hprunes w
  have hsub := (Upkeeps.still (hreach.sound hlaw).inv hupkeeps).2.1.length_le
  rw [h.appends.changes_eq, List.length_append] at hsub
  exact List.length_eq_zero_iff.mp (by omega)

/-- **A publication advances its writers.** -/
theorem Publication.writes (hlaw : env.automerge.Lawful) (hreach : Reachable env w)
    {added : List ChangeRow} (h : Publication w.db (w.step env event).db added) {c : ChangeRow}
    (hc : c ∈ added) {session : String} (hnames : NamesSession env w event c session) :
    c.cursor ≤ (w.step env event).db.writeCursor c.key.scopeJson session := by
  have hprunes : ¬ event.Prunes := by
    intro hprunes
    rw [h.of_prunes hlaw hreach hprunes] at hc
    cases hc
  have hsame : ∀ {added'}, Publication w.db (w.step env event).db added' → added' = added :=
    fun h' => List.append_cancel_left (h'.appends.changes_eq.symm.trans h.appends.changes_eq)
  have hsound := hreach.sound hlaw
  obtain ⟨-, ⟨added', h', hunits, hwrites⟩ | ⟨i, clock, p, unit, rfl, hp, hinUnit, hbatch⟩⟩ :=
    (World.step_moved hsound event).batchStep hlaw hreach (hreach.unmarked hlaw) hprunes
  · obtain rfl := hsame h'
    rcases hnames with ⟨i, clock, p, prepared, rfl, hp, -, hat, hsession⟩ |
      ⟨unit, e, keys, hbefore, ⟨u, hu, rfl, hcommitted⟩, -⟩
    · exact hwrites c hc i clock p prepared rfl hp hat session hsession
    · exact absurd ⟨u, hunits u hu (Or.inr hcommitted) not_false, rfl, hcommitted⟩ hbefore
  · obtain ⟨added', h', hwrites, -⟩ := hbatch.publication hsound.inv
    obtain rfl := hsame h'
    rcases hnames with ⟨i', clock', p', prepared, hevent, hp', hnone, -⟩ |
      ⟨unit, e, keys, hbefore, hafter, hentity, hkeys, hsession⟩
    · cases hevent
      rw [hp, Option.some.injEq] at hp'
      rw [hp'] at hinUnit
      exact absurd hnone hinUnit
    · exact hwrites unit hbefore hafter c hc e keys hentity hkeys session hsession

/-! ### Guarantees -/

/-- What the sessions and the tokens of a served read guarantee, by what happened before it. -/
structure SessionGuarantees (env : Environment) (w : World) (scope : String)
    (consistency : ReadConsistency) (frontier : ℕ) : Prop where
  monotonicReads : ∀ w₁ event₁ consistency₁ frontier₁, Reachable env w₁ →
    Runs env (w₁.step env event₁) w →
    ServedRead env.search w₁.db scope consistency₁ frontier₁ (w₁.step env event₁).db →
    ∀ s₁ ∈ consistency₁.sessions, ∀ s ∈ consistency.sessions, s₁.keyJson = s.keyJson →
      s₁.monotonicReads = true → s.monotonicReads = true → frontier₁ ≤ frontier
  readYourWrites : ∀ w₁ event₁ added, Reachable env w₁ → Runs env (w₁.step env event₁) w →
    Publication w₁.db (w₁.step env event₁).db added →
    ∀ c ∈ added, c.key.scopeJson = scope → ∀ s ∈ consistency.sessions, s.readYourWrites = true →
      NamesSession env w₁ event₁ c s.keyJson → c.cursor ≤ frontier
  causal : ∀ w₁ event₁ added, Reachable env w₁ → Runs env (w₁.step env event₁) w →
    Publication w₁.db (w₁.step env event₁).db added →
    ∀ c ∈ added, c.key.scopeJson = scope → c.causalToken ∈ consistency.minimumTokens →
      c.cursor ≤ frontier

/-- **What a served read guarantees.** -/
theorem ServedRead.guarantees (hlaw : env.automerge.Lawful) (hreach : Reachable env w)
    (h : ServedRead env.search w.db scope consistency frontier new) :
    SessionGuarantees env w scope consistency frontier := by
  obtain ⟨⟨state, observation, hrises, hcausal, hobserves⟩, -⟩ :=
    h.requires (hreach.sound hlaw).inv
  have hrequired : ∀ s ∈ consistency.sessions,
      max (if s.monotonicReads then state.readCursor scope s.keyJson else 0)
        (if s.readYourWrites then state.writeCursor scope s.keyJson else 0) ≤ frontier := by
    intro s hs
    rw [← sessionRequirement_eq]
    exact hobserves.sessions s hs
  refine ⟨?_, ?_, ?_⟩
  · intro w₁ event₁ consistency₁ frontier₁ hreach₁ hruns h₁ s₁ hs₁ s hs hkey hmonotonic₁ hmonotonic
    have hcovers := (h₁.requires (hreach₁.sound hlaw).inv).covers s₁ hs₁ hmonotonic₁
    have hlater := (hruns.rises hlaw (.step event₁ hreach₁ trivial)).trans hrises
    have hread := le_of_max_le_left (hrequired s hs)
    rw [if_pos hmonotonic] at hread
    rw [hkey] at hcovers
    exact hcovers.trans ((hlater.reads scope s.keyJson).trans hread)
  · rintro w₁ event₁ added hreach₁ hruns hpublication c hc rfl s hs hwrites hnames
    have hcovers := hpublication.writes hlaw hreach₁ hc hnames
    have hlater := (hruns.rises hlaw (.step event₁ hreach₁ trivial)).trans hrises
    have hwritten := le_of_max_le_right (hrequired s hs)
    rw [if_pos hwrites] at hwritten
    exact hcovers.trans ((hlater.writes _ s.keyJson).trans hwritten)
  · rintro w₁ event₁ added hreach₁ hruns hpublication c hc rfl htoken
    have hstep : Reachable env (w₁.step env event₁) := .step event₁ hreach₁ trivial
    have hissued := (hstep.tokenInv hlaw).issued c (by
      rw [hpublication.appends.changes_eq]
      exact List.mem_append_right _ hc)
    have hthere := (hruns.rises hlaw hstep).tokens _ hissued
    obtain ⟨cursor, hcursor, hle⟩ := hobserves.tokens _ htoken
    have hfound : w.db.tokenCursor? c.key.scopeJson c.causalToken = some cursor := by
      rw [tokenCursor?, ← hcausal]
      exact hcursor
    rwa [← (hreach.tokenInv hlaw).cursor_eq hthere hfound]

/-! ### Values -/

/-- An earlier state of the run, with a frontier. -/
structure EarlierAt (env : Environment) (w₀ w : World) (scope : String) (frontier : ℕ) : Prop where
  reachable : Reachable env w₀
  runs : Runs env w₀ w
  frontier_eq : w₀.db.currentScopeCursor scope = frontier

/-- **What reads return**: what was published at their frontier, whichever state of the run had it,
and in a unit what the unit has staged over it. The reads of a unit at a frontier of the past have
one: a state of the run was there. -/
structure ReadValues (env : Environment) (w : World) : Prop where
  published : ∀ clock key consistency value observation,
    (readEntity w.db clock key consistency).outcome = .ok (.read value observation) →
      observation.frontier = w.db.currentScopeCursor key.scopeJson ∧
      ∀ w₀, EarlierAt env w₀ w key.scopeJson observation.frontier →
        value = w₀.db.readEntitySnapshot key
  retrieved : ∀ clock query consistency page observation,
    (retrieveEntities env.search w.db clock query consistency).outcome =
        .ok (.read page observation) →
      observation.frontier = w.db.currentScopeCursor query.scopeJson ∧
      ∀ w₀, EarlierAt env w₀ w query.scopeJson observation.frontier →
        page.Agrees env.search query fun key value =>
          key.scopeJson = query.scopeJson ∧ value = w₀.db.readEntitySnapshot key
  inUnit : ∀ clock (workUnit : WorkUnit) key consistency value observation,
    workUnit.scopeJson = key.scopeJson →
    (readEntityInWorkUnit w.db clock workUnit key consistency).outcome =
        .ok (.opened (.read value observation)) →
      (∃ w₀, EarlierAt env w₀ w key.scopeJson observation.frontier) ∧
      ∀ w₀, EarlierAt env w₀ w key.scopeJson observation.frontier →
        Overlays w₀.db (readEntityInWorkUnit w.db clock workUnit key consistency).db
          workUnit.identityJson key value
  retrievedInUnit : ∀ clock (workUnit : WorkUnit) query consistency page observation,
    workUnit.scopeJson = query.scopeJson →
    (retrieveEntitiesInWorkUnit env.search w.db clock workUnit query consistency).outcome =
        .ok (.opened (.read page observation)) →
      (∀ key, key.scopeJson = query.scopeJson → ∃ value,
        (readEntityInWorkUnit w.db clock workUnit key consistency).outcome =
          .ok (.opened (.read value observation))) ∧
      page.Agrees env.search query fun key value =>
        (readEntityInWorkUnit w.db clock workUnit key consistency).outcome =
          .ok (.opened (.read value observation))

theorem EarlierAt.readEntitySnapshot_eq (hlaw : env.automerge.Lawful) {w₀ : World} {key : EntityKey}
    (hreach : Reachable env w)
    (h : EarlierAt env w₀ w key.scopeJson (w.db.currentScopeCursor key.scopeJson)) :
    w.db.readEntitySnapshot key = w₀.db.readEntitySnapshot key :=
  Patchouli.readEntitySnapshot_eq (h.reachable.sound hlaw).inv (hreach.sound hlaw).inv
    (h.runs.extends hlaw h.reachable) h.frontier_eq.symm

/-- The value of a read in a unit. -/
theorem readEntityInWorkUnit_value (hlaw : env.automerge.Lawful) (hreach : Reachable env w)
    {clock : Clock} {workUnit : WorkUnit} {key : EntityKey} {value : Option EntitySnapshot}
    {observation : ReadObservation} (hscope : workUnit.scopeJson = key.scopeJson)
    (h : (readEntityInWorkUnit w.db clock workUnit key consistency).outcome =
      .ok (.opened (.read value observation))) :
    (∃ w₀, EarlierAt env w₀ w key.scopeJson observation.frontier) ∧
      ∀ w₀, EarlierAt env w₀ w key.scopeJson observation.frontier →
        Overlays w₀.db (readEntityInWorkUnit w.db clock workUnit key consistency).db
          workUnit.identityJson key value := by
  have inv := (hreach.sound hlaw).inv
  obtain ⟨swept, base, captured, row, hreads, hcapture, rfl, hobserves, hdb⟩ :=
    readEntityInWorkUnit_served inv h
  obtain ⟨hupkeeps, inv', hmem, hid, hrowscope, -⟩ :=
    hreads.base (K := Known.anything) inv trivial
  have hkey := hrowscope.trans hscope
  rw [hobserves.frontier_eq, hdb, ← hid]
  rw [← hid] at hcapture
  refine ⟨?_, fun w₀ hearlier => ?_⟩
  · rcases Upkeeps.opens hupkeeps row hmem with ⟨u, hu, hev⟩ | hbaseline
    · obtain ⟨w₀, hreach₀, hruns, hbaseline⟩ := hreach.baseline_seen hlaw u hu
      refine ⟨w₀, hreach₀, hruns, ?_⟩
      rw [hev.baselineCursor, hbaseline, ← hkey, hev.scopeJson]
    · exact ⟨w, hreach, .refl, by rw [hbaseline, hkey]⟩
  · obtain ⟨entities, bases, hcapture', inv'', hsome⟩ := inv'.captured hmem hkey
    have hcaptured := inv'.capture hmem hkey hcapture
    have hext := ((hearlier.runs.extends hlaw hearlier.reachable).trans
      (hupkeeps.keeps inv).2).trans hcaptured.2
    rw [hcapture', Except.ok.injEq] at hcapture
    have hoverlays := readWorkUnitSnapshot_overlays (hearlier.reachable.sound hlaw).inv hcaptured.1
      hext (u := row) (hcapture ▸ hmem) hearlier.frontier_eq.symm (hcapture ▸ hsome)
    exact ⟨hoverlays.unstaged, hoverlays.staged⟩

theorem Reachable.readValues (hlaw : env.automerge.Lawful) (hreach : Reachable env w) :
    ReadValues env w := by
  have inv := (hreach.sound hlaw).inv
  refine ⟨?_, ?_, ?_, ?_⟩
  · intro clock key consistency value observation h
    obtain ⟨swept, hswept, -, hserved⟩ := readEntity_served inv h
    have hsame := Upkeeps.sameHistory (Expiries.upkeeps Known.nothing hswept.expiries)
    have hfrontier : observation.frontier = w.db.currentScopeCursor key.scopeJson := by
      rw [hserved.observes.frontier_eq]
      exact currentScopeCursor_congr hsame.scopeFrontier _
    refine ⟨hfrontier, fun w₀ hearlier => ?_⟩
    rw [hfrontier] at hearlier
    rw [readEntity_value inv h]
    exact hearlier.readEntitySnapshot_eq hlaw hreach
  · intro clock query consistency page observation h
    obtain ⟨-, hserved⟩ := retrieveEntities_served h
    have hfrontier := hserved.observes.frontier_eq
    refine ⟨hfrontier, fun w₀ hearlier => (retrieveEntities_agrees inv h).mono ?_⟩
    rintro key value ⟨hkey, rfl⟩
    rw [hfrontier, ← hkey] at hearlier
    exact (hearlier.readEntitySnapshot_eq hlaw hreach).symm
  · exact fun _ _ _ _ _ _ hscope h => readEntityInWorkUnit_value hlaw hreach hscope h
  · exact fun _ _ _ _ _ _ hscope h =>
      retrieveEntitiesInWorkUnit_agrees inv (hreach.openHeads hlaw) hscope h

/-! ### Availability -/

/-- A read cannot be served because it may not be served here, or names a token that was not issued
in its scope. -/
def Unservable (db : Db) (scope : String) (consistency : ReadConsistency) : Prop :=
  .authority ∉ consistency.allowedSources ∨ ∃ token ∈ consistency.minimumTokens,
    ∀ t ∈ db.causalFrontier, ¬ (t.scopeJson = scope ∧ t.causalToken = token)

/-- At the frontier of the scope no session makes a read unavailable. -/
theorem consistencyObservation_unservable {db : Db} (log : LogInv db) {now : ℕ}
    (h : consistencyObservation db now scope consistency (db.currentScopeCursor scope) = .ok none) :
    Unservable db scope consistency := by
  unfold consistencyObservation at h
  split at h
  · cases h
  · split at h
    · exact Or.inl ‹_›
    · split at h
      · rename_i htokens
        obtain ⟨token, htoken, hunmet⟩ := List.any_eq_true.mp htokens
        refine Or.inr ⟨token, htoken, fun t ht hmatch => ?_⟩
        unfold tokenCursor? at hunmet
        cases hfound : db.causalFrontier.find? fun row =>
            row.scopeJson = scope ∧ row.causalToken = token with
        | none => exact absurd hmatch (by simpa using List.find?_eq_none.mp hfound t ht)
        | some found =>
          have hfoundScope := List.find?_some hfound
          simp only [decide_eq_true_eq] at hfoundScope
          obtain ⟨row, hrow, hrowScope, hcursor⟩ :=
            log.tokens found (List.mem_of_find?_eq_some hfound)
          have hle := (log.history row hrow).2
          rw [hrowScope, hfoundScope.1, hcursor] at hle
          simp only [hfound, Option.map_some, Option.all_some, decide_eq_true_eq] at hunmet
          omega
      · split at h
        · rename_i hsessions
          obtain ⟨s, -, hahead⟩ := List.any_eq_true.mp hsessions
          rw [decide_eq_true_eq, sessionRequirement_eq] at hahead
          have hreads := log.reads scope s.keyJson
          have hwrites := log.writes scope s.keyJson
          split at hahead <;> split at hahead <;> omega
        · cases h

theorem readIdempotencyRecord_available {db : Db} {identity : String} {request : Mutation} {now : ℕ}
    {outcome : IdempotencyReadOutcome}
    (h : readIdempotencyRecord db identity request now = .ok (outcome, new)) :
    outcome ≠ .unavailable := by
  rintro rfl
  obtain ⟨forgotten, -, h⟩ := Except.bind_eq_ok.mp h
  split at h
  · simp only [Except.pure_eq_ok, Except.ok.injEq, Prod.mk.injEq] at h
    split at h <;> cases h.1
  · simp only [Except.pure_eq_ok, Except.ok.injEq, Prod.mk.injEq] at h
    split at h <;> cases h.1

theorem Unservable.congr {old db : Db} (h : Unservable db scope consistency)
    (hcausal : db.causalFrontier = old.causalFrontier) : Unservable old scope consistency := by
  unfold Unservable at *
  rwa [hcausal] at h

/-- **Immediate reads are never made unavailable by a session.** -/
structure NeverBehind (env : Environment) (w : World) : Prop where
  cursors : ∀ scope session, w.db.readCursor scope session ≤ w.db.currentScopeCursor scope ∧
    w.db.writeCursor scope session ≤ w.db.currentScopeCursor scope
  entity : ∀ clock key consistency,
    (readEntity w.db clock key consistency).outcome = .ok .unavailable →
      Unservable w.db key.scopeJson consistency
  retrieval : ∀ clock query consistency,
    (retrieveEntities env.search w.db clock query consistency).outcome = .ok .unavailable →
      Unservable w.db query.scopeJson consistency
  idempotency : ∀ clock scope consistency identity request now,
    (readIdempotency w.db clock scope consistency identity request now).outcome =
      .ok .unavailable → Unservable w.db scope consistency

theorem Reachable.neverBehind (hlaw : env.automerge.Lawful) (hreach : Reachable env w) :
    NeverBehind env w := by
  have log := hreach.log hlaw
  have inv := (hreach.sound hlaw).inv
  refine ⟨fun scope session => ⟨log.reads scope session, log.writes scope session⟩, ?_, ?_, ?_⟩
  · intro clock key consistency h
    obtain ⟨swept, hswept, hcall, -⟩ := sweepThen_eq_ok inv h
    have hupkeeps := Expiries.upkeeps Known.nothing hswept.expiries
    obtain ⟨committed, hbody, -⟩ := transaction_eq_ok hcall
    obtain ⟨observed, hobserve, hbody⟩ := Except.bind_eq_ok.mp hbody
    cases observed with
    | none =>
      exact (consistencyObservation_unservable (Effects.keepsLog log
        (Upkeeps.effects (A := env.automerge) hupkeeps)) hobserve).congr
          (Upkeeps.sameHistory hupkeeps).causalFrontier
    | some observation => simp [commitBeforeDeadline_eq_ok] at hbody
  · intro clock query consistency h
    obtain ⟨committed, hbody, -⟩ := transaction_eq_ok h
    obtain ⟨observed, hobserve, hbody⟩ := Except.bind_eq_ok.mp hbody
    cases observed with
    | none => exact consistencyObservation_unservable log hobserve
    | some observation => simp [commitBeforeDeadline_eq_ok] at hbody
  · intro clock scope consistency identity request now h
    obtain ⟨committed, hbody, -⟩ := transaction_eq_ok h
    obtain ⟨observed, hobserve, hbody⟩ := Except.bind_eq_ok.mp hbody
    cases observed with
    | none => exact consistencyObservation_unservable log hobserve
    | some observation =>
      obtain ⟨⟨outcome, forgotten⟩, hread, hbody⟩ := Except.bind_eq_ok.mp hbody
      simp only [commitBeforeDeadline_eq_ok, Finished.mk.injEq] at hbody
      exact absurd hbody.2.1.symm (readIdempotencyRecord_available hread)

/-- **Sessions and causal tokens keep their promises.** -/
theorem session_and_causal_guarantees (hlaw : env.automerge.Lawful) (hreach : Reachable env w) :
    (∀ scope consistency frontier new,
      ServedRead env.search w.db scope consistency frontier new →
        SessionGuarantees env w scope consistency frontier) ∧
    ReadValues env w ∧ NeverBehind env w :=
  ⟨fun _ _ _ _ h => h.guarantees hlaw hreach, hreach.readValues hlaw, hreach.neverBehind hlaw⟩

/-- A read that requires the token of the creation of the note. -/
def afterCreation : ReadConsistency := ⟨[.authority], [drawnName 0 (.version 0)], [], none⟩

/-- The read is served at the cursor of the creation. -/
theorem creation_is_seen : SessionGuarantees noteEnvironment onlyNote "scope" afterCreation 1 := by
  have hread : (readEntity onlyNote.db (clockAt 7) noteKey afterCreation).outcome =
      .ok (.read (some createdNote) ⟨.authority, 1, some (drawnName 0 (.version 0))⟩) := by decide
  exact (session_and_causal_guarantees (show noteEnvironment.automerge.Lawful from
    noAutomerge_lawful) onlyNote_reachable).1 _ _ _ _ (.entity rfl hread)

end Patchouli
