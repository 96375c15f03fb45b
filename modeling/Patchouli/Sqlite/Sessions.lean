import Patchouli.Sqlite.Record

/-!
# Sessions and causal tokens

A session is two marks in a scope, how far it has read and how far it has written, and a causal
token is a row that names the cursor of one publication. Marks only rise and token rows only
accumulate, whatever happens to the tables. So a read that is served meets what earlier reads and
publications required: the requirement was written down when they happened, and it is checked
against what is written down now.

All reading calls are one relation here: the scope they read, what they required, the frontier they
were served at and the tables they left.

## Main definitions

* `Db.Rises` — the marks and the tokens
* `Db.TokenInv` — a token names one publication
* `ServedRead` — the six reading calls

## Main results

* `Effects.rises`, `Effects.tokenInv`
* `ServedRead.requires` — what was required of a served read
-/

namespace Patchouli

open Db Relation

variable {A : Automerge} {K : Known} {old mid new db : Db} {key : EntityKey} {unit : String}

/-! ### Marks and tokens -/

/-- No session reads or writes less, and no token is forgotten. -/
structure Db.Rises (old new : Db) : Prop where
  reads : ∀ scope session, old.readCursor scope session ≤ new.readCursor scope session
  writes : ∀ scope session, old.writeCursor scope session ≤ new.writeCursor scope session
  tokens : ∀ t ∈ old.causalFrontier, t ∈ new.causalFrontier

/-- A token names one publication, and every record of the log has its token. -/
structure Db.TokenInv (db : Db) : Prop where
  keys : (db.causalFrontier.map (·.causalToken)).Nodup
  issued : ∀ c ∈ db.changes, ⟨c.causalToken, c.key.scopeJson, c.cursor⟩ ∈ db.causalFrontier

theorem readCursor_congr (h : new.sessionFrontier = old.sessionFrontier) (scope session : String) :
    new.readCursor scope session = old.readCursor scope session := by
  rw [readCursor, h]
  rfl

namespace Db.Rises

theorem refl (db : Db) : Rises db db := ⟨fun _ _ => le_rfl, fun _ _ => le_rfl, fun _ h => h⟩

theorem trans (h : Rises old mid) (h' : Rises mid new) : Rises old new :=
  ⟨fun scope session => (h.reads scope session).trans (h'.reads scope session),
    fun scope session => (h.writes scope session).trans (h'.writes scope session),
    fun t ht => h'.tokens t (h.tokens t ht)⟩

theorem of_eq (hsessions : new.sessionFrontier = old.sessionFrontier)
    (hcausal : new.causalFrontier = old.causalFrontier) : Rises old new :=
  ⟨fun scope session => (readCursor_congr hsessions scope session).ge,
    fun scope session => (writeCursor_congr hsessions scope session).ge,
    fun t ht => by rwa [hcausal]⟩

theorem logged {change : ChangeRow} {sessionKeys : List String}
    (h : Logged old new change sessionKeys) : Rises old new := by
  refine ⟨fun scope session => ?_, h.writes.2, fun t ht => ?_⟩
  · rw [readCursor_congr h.sessionFrontier_eq, readCursor_advanceWriteSessions]
  · rw [h.causalFrontier_eq]
    exact List.mem_append_left _ ht

end Db.Rises

namespace Db.TokenInv

theorem empty : TokenInv Db.empty := ⟨List.nodup_nil, by simp [Db.empty]⟩

theorem of_eq (inv : TokenInv old) (hcausal : new.causalFrontier = old.causalFrontier)
    (hchanges : ∀ c ∈ new.changes, c ∈ old.changes) : TokenInv new :=
  ⟨by rw [hcausal]; exact inv.keys, fun c hc => by rw [hcausal]; exact inv.issued c (hchanges c hc)⟩

theorem logged (inv : TokenInv old) {change : ChangeRow} {sessionKeys : List String}
    (h : Logged old new change sessionKeys) : TokenInv new := by
  refine ⟨?_, fun c hc => ?_⟩
  · rw [h.causalFrontier_eq, List.map_append]
    refine List.Nodup.append inv.keys (List.nodup_singleton _) ?_
    intro token htoken hnew
    obtain ⟨t, ht, rfl⟩ := List.mem_map.mp htoken
    rw [List.map_singleton, List.mem_singleton] at hnew
    exact h.fresh t ht hnew
  · rw [h.changes_eq] at hc
    rw [h.causalFrontier_eq]
    rcases List.mem_append.mp hc with hc | hc
    · exact List.mem_append_left _ (inv.issued c hc)
    · rw [List.mem_singleton.mp hc]
      exact List.mem_append_right _ (List.mem_singleton.mpr rfl)

/-- The cursor of a token that was issued. -/
theorem cursor_eq (inv : TokenInv db) {token scope : String} {cursor found : ℕ}
    (hissued : ⟨token, scope, cursor⟩ ∈ db.causalFrontier)
    (h : db.tokenCursor? scope token = some found) : found = cursor := by
  obtain ⟨t, ht, rfl⟩ := Option.map_eq_some_iff.mp h
  have htoken := List.find?_some ht
  simp only [decide_eq_true_eq] at htoken
  have hsame := Table.eq_of_key_eq (·.causalToken) inv.keys (List.mem_of_find?_eq_some ht) hissued
    htoken.2
  rw [hsame]

end Db.TokenInv

theorem foldlM_publishWorkUnitEntity_rises {recordedAt : ℕ} {keys : List EntityKey}
    (h : keys.foldlM (publishWorkUnitEntity unit recordedAt) old = .ok new) :
    Rises old new ∧ (TokenInv old → TokenInv new) := by
  induction keys generalizing old with
  | nil =>
    simp only [List.foldlM_nil, Except.pure_eq_ok, Except.ok.injEq] at h
    exact h ▸ ⟨.refl old, id⟩
  | cons key keys ih =>
    obtain ⟨next, hnext, hrest⟩ := Except.foldlM_cons_eq_ok.mp h
    obtain ⟨change, sessionKeys, -, -, -, hlogged⟩ := publishWorkUnitEntity_logged hnext
    obtain ⟨hrises, htokens⟩ := ih hrest
    exact ⟨(Rises.logged hlogged).trans hrises, fun inv => htokens (inv.logged hlogged)⟩

theorem Upkeep.rises (h : Upkeep K old new) : Rises old new := by
  cases h with
  | sessions scope consistency frontier =>
    exact ⟨fun _ _ => readCursor_le_advanceReadSessions _ _ _ _ _ _,
      fun _ _ => (writeCursor_advanceReadSessions _ _ _ _ _ _).ge, fun _ h => h⟩
  | forget => exact .of_eq rfl rfl
  | note => exact .of_eq rfl rfl
  | prune => exact .of_eq rfl rfl
  | expire h =>
    obtain ⟨-, -, -, h⟩ := h
    obtain ⟨hsame, -, -, hsessions⟩ := expireWorkUnit_log h
    exact .of_eq hsessions hsame.causalFrontier
  | openUnit => exact .of_eq rfl rfl
  | capture _ _ _ h =>
    obtain ⟨_, _, rfl⟩ := captureWorkUnitEntity_eq h
    exact .of_eq rfl rfl

theorem Upkeeps.rises (h : Upkeeps K old new) : Rises old new := by
  induction h with
  | refl => exact .refl old
  | tail _ hstep ih => exact ih.trans hstep.rises

/-- **Marks rise and tokens stay.** -/
theorem Effect.rises (inv : Inv A old) (h : Effect A K old new) :
    Rises old new ∧ (TokenInv old → TokenInv new) := by
  have hsame : ∀ {db' : Db}, SamePublished old db' → Rises old db' ∧ (TokenInv old → TokenInv db') :=
    fun h => ⟨.of_eq h.sessionFrontier h.causalFrontier, fun inv =>
      inv.of_eq h.causalFrontier fun c hc => h.changes ▸ hc⟩
  cases h with
  | upkeep h =>
    exact ⟨h.rises, fun htokens => htokens.of_eq h.sameHistory.causalFrontier fun c hc =>
      (h.still inv).2.1.subset hc⟩
  | commit _ _ h =>
    have hlogged := commitEntityInTransaction_logged h
    exact ⟨.logged hlogged, fun inv => inv.logged hlogged⟩
  | record _ h =>
    rw [insertIdempotency_eq h]
    exact ⟨.of_eq rfl rfl, fun inv => inv.of_eq rfl fun _ h => h⟩
  | stage _ _ _ _ _ _ h => exact hsame (stageMutation_log h)
  | stageRecord _ _ _ h =>
    rw [insertWorkUnitIdempotency_eq h]
    exact ⟨.of_eq rfl rfl, fun inv => inv.of_eq rfl fun _ h => h⟩
  | close => exact ⟨.of_eq rfl rfl, fun inv => inv.of_eq rfl fun _ h => h⟩
  | resolve _ _ _ _ _ _ hinsert h => exact hsame (resolveConflict_log hinsert h)
  | publish _ _ h =>
    obtain ⟨mid, hloop, _, _, _, rfl⟩ := finishWorkUnitPublication_loop h
    obtain ⟨hrises, htokens⟩ := foldlM_publishWorkUnitEntity_rises hloop
    exact ⟨hrises.trans (.of_eq rfl rfl), fun inv => (htokens inv).of_eq rfl fun _ h => h⟩

theorem Effects.rises (hlaw : A.Lawful) (inv : Inv A old) (h : Effects A K old new) :
    Rises old new ∧ (TokenInv old → TokenInv new) := by
  induction h with
  | refl => exact ⟨.refl old, id⟩
  | tail hbefore hstep ih =>
    have hlast := hstep.rises (Effects.keeps hlaw inv hbefore).1
    exact ⟨ih.1.trans hlast.1, hlast.2 ∘ ih.2⟩

/-! ### Served reads -/

/-- A reading call that was served: its scope, what it required, the frontier it was served at and
the tables it left. -/
inductive ServedRead (search : Search) (db : Db) (scope : String) (consistency : ReadConsistency) :
    ℕ → Db → Prop
  | entity {clock : Clock} {key : EntityKey} {value : Option EntitySnapshot}
    {observation : ReadObservation} (hscope : key.scopeJson = scope)
    (h : (readEntity db clock key consistency).outcome = .ok (.read value observation)) :
    ServedRead search db scope consistency observation.frontier
      (readEntity db clock key consistency).db
  | retrieval {clock : Clock} {query : RetrieveQuery} {page : RetrievedPage}
    {observation : ReadObservation} (hscope : query.scopeJson = scope)
    (h : (retrieveEntities search db clock query consistency).outcome =
      .ok (.read page observation)) :
    ServedRead search db scope consistency observation.frontier
      (retrieveEntities search db clock query consistency).db
  | idempotency {clock : Clock} {identity : String} {request : Mutation} {now : ℕ}
    {outcome : IdempotencyReadOutcome}
    (h : (readIdempotency db clock scope consistency identity request now).outcome = .ok outcome)
    (havailable : outcome ≠ .unavailable) :
    ServedRead search db scope consistency (db.currentScopeCursor scope)
      (readIdempotency db clock scope consistency identity request now).db
  | unitEntity {clock : Clock} {workUnit : WorkUnit} {key : EntityKey}
    {value : Option EntitySnapshot} {observation : ReadObservation}
    (hscope : workUnit.scopeJson = scope) (hkey : key.scopeJson = scope)
    (h : (readEntityInWorkUnit db clock workUnit key consistency).outcome =
      .ok (.opened (.read value observation))) :
    ServedRead search db scope consistency observation.frontier
      (readEntityInWorkUnit db clock workUnit key consistency).db
  | unitRetrieval {clock : Clock} {workUnit : WorkUnit} {query : RetrieveQuery}
    {page : RetrievedPage} {observation : ReadObservation} (hscope : workUnit.scopeJson = scope)
    (hquery : query.scopeJson = scope)
    (h : (retrieveEntitiesInWorkUnit search db clock workUnit query consistency).outcome =
      .ok (.opened (.read page observation))) :
    ServedRead search db scope consistency observation.frontier
      (retrieveEntitiesInWorkUnit search db clock workUnit query consistency).db
  | unitIdempotency {clock : Clock} {workUnit : WorkUnit} {identity : String} {request : Mutation}
    {now : ℕ} {allowReplay : Bool} {outcome : IdempotencyReadOutcome} {row : WorkUnitRow}
    (hscope : workUnit.scopeJson = scope)
    (h : (readIdempotencyInWorkUnit db clock workUnit consistency identity request now
      allowReplay).outcome = .ok outcome) (havailable : outcome ≠ .unavailable)
    (hrow : (readIdempotencyInWorkUnit db clock workUnit consistency identity request now
      allowReplay).db.workUnit? workUnit.identityJson = some row) :
    ServedRead search db scope consistency row.baselineCursor
      (readIdempotencyInWorkUnit db clock workUnit consistency identity request now allowReplay).db

/-- What was required of a served read was met by tables it had before it, and its monotonic
sessions have read through its frontier. -/
structure Requires (db : Db) (scope : String) (consistency : ReadConsistency) (frontier : ℕ)
    (new : Db) : Prop where
  met : ∃ state observation, Rises db state ∧ state.causalFrontier = db.causalFrontier ∧
    Observes state scope consistency frontier observation
  covers : ∀ session ∈ consistency.sessions, session.monotonicReads = true →
    frontier ≤ new.readCursor scope session.keyJson

theorem Requires.of_observes {scope : String} {consistency : ReadConsistency} {frontier : ℕ}
    {state last : Db} {observation : ReadObservation} (hupkeeps : Upkeeps K db state)
    (hobserves : Observes state scope consistency frontier observation)
    (hdb : new = last.advanceReadSessions scope consistency frontier) :
    Requires db scope consistency frontier new := by
  refine ⟨⟨state, observation, Upkeeps.rises hupkeeps,
    (Upkeeps.sameHistory hupkeeps).causalFrontier, hobserves⟩, fun session hsession hmonotonic => ?_⟩
  rw [hdb]
  exact readCursor_advanceReadSessions_covers _ _ _ hsession hmonotonic

/-- **A served read met what was required of it.** -/
theorem ServedRead.requires {search : Search} {scope : String} {consistency : ReadConsistency}
    {frontier : ℕ} (inv : Inv A db) (h : ServedRead search db scope consistency frontier new) :
    Requires db scope consistency frontier new := by
  let K := Known.anything
  cases h with
  | entity hscope h =>
    obtain ⟨swept, hswept, -, hobserves, hdb⟩ := readEntity_served inv h
    rw [hobserves.frontier_eq]
    subst hscope
    exact .of_observes (Expiries.upkeeps K hswept.expiries) hobserves hdb
  | retrieval hscope h =>
    obtain ⟨-, hobserves, hdb⟩ := retrieveEntities_served h
    rw [hobserves.frontier_eq]
    subst hscope
    exact .of_observes (K := K) .refl hobserves hdb
  | idempotency h havailable =>
    obtain ⟨observation, forgotten, hobserves, -, hdb⟩ := readIdempotency_served h havailable
    exact .of_observes (K := K) .refl hobserves hdb
  | unitEntity hscope hkey h =>
    obtain ⟨swept, base, captured, row, hreads, -, -, hobserves, hdb⟩ :=
      readEntityInWorkUnit_served inv h
    rw [hobserves.frontier_eq]
    subst hscope
    exact .of_observes (hreads.base (K := K) inv trivial).1 hobserves hdb
  | unitRetrieval hscope hquery h =>
    obtain ⟨swept, base, captured, row, hreads, -, -, hobserves, hdb⟩ :=
      retrieveEntitiesInWorkUnit_served inv h
    rw [hobserves.frontier_eq]
    subst hscope
    exact .of_observes (hreads.base (K := K) inv trivial).1 hobserves hdb
  | unitIdempotency hscope h havailable hrow =>
    obtain ⟨last, row', observation, hread, hrow', hobserves, hdb⟩ :=
      readIdempotencyInWorkUnit_served h havailable
    subst hscope
    have hrow₂ := hrow
    rw [hdb] at hrow₂
    obtain rfl := Option.some.inj (hrow'.symm.trans hrow₂)
    obtain ⟨state, mid, hensured, hlast⟩ := readWorkUnitIdempotency_ensured hread
    have hupkeeps : Upkeeps K db last := by
      rcases hlast with rfl | hforget
      · exact hensured.upkeeps trivial
      · exact (hensured.upkeeps trivial).tail (deleteOverdueIdempotency_upkeep hforget)
    exact .of_observes hupkeeps hobserves hdb

end Patchouli
