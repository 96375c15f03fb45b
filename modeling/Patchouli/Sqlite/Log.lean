import Patchouli.Sqlite.Atomic

/-!
# The change log

A publication issues a cursor and writes it in four places: the change record, the head history,
the causal frontier and the frontier of the scope. Change records are pruned later; the head history
never is, so it has a row for every cursor that was ever issued. What the tables of the log say
about each other is `LogInv`: the head history is increasing, the frontier of a scope is its last
cursor, no session and no causal token is past it, and what the history has and the log lacks was
noted before it was pruned.

## Main definitions

* `Db.Logged` — one more record in the log
* `Db.LogInv` — what the tables of the log say about each other
* `Db.Appends` — records were added, and nothing else happened to the log

## Main results

* `commitEntityInTransaction_logged`, `publishWorkUnitEntity_logged` — what a publication records
* `Effect.keepsLog` — every effect keeps `LogInv`
-/

namespace Patchouli

open Db Relation

/-- The row of the head history that goes with a change record. -/
def ChangeRow.history (change : ChangeRow) : HeadHistoryRow :=
  ⟨change.key, change.cursor, change.headVersionsJson⟩

namespace Db

variable {old mid new : Db} {key : EntityKey} {unit : String}

/-- One more record in the log. -/
structure Logged (old new : Db) (change : ChangeRow) (sessionKeys : List String) : Prop where
  heads : change.headVersionsJson.Nodup ∧ change.headVersionsJson ≠ []
  cursor_eq : change.cursor = old.lastCursor + 1
  lastCursor_eq : new.lastCursor = change.cursor
  changes_eq : new.changes = old.changes ++ [change]
  headHistory_eq : new.headHistory = old.headHistory ++ [change.history]
  causalFrontier_eq : new.causalFrontier =
    old.causalFrontier ++ [⟨change.causalToken, change.key.scopeJson, change.cursor⟩]
  scopeFrontier_eq : new.scopeFrontier =
    advanceScopeFrontier change.key.scopeJson change.cursor change.causalToken old.scopeFrontier
  sessionFrontier_eq : new.sessionFrontier =
    (old.advanceWriteSessions change.key.scopeJson sessionKeys change.cursor).sessionFrontier
  changeRetention_eq : new.changeRetention = old.changeRetention
  fresh : ∀ row ∈ old.causalFrontier, row.causalToken ≠ change.causalToken

/-- The record of an immediate commit. -/
def commitChange (old : Db) (commit : EntityCommit) : ChangeRow where
  cursor := old.lastCursor + 1
  key := commit.key
  kind := commit.changeKind
  headVersionsJson := commit.headVersions
  causalToken := commit.causalToken
  eventMetaJson := commit.eventMetaJson
  recordedAtUnixMs := commit.recordedAtUnixMs

/-- **An immediate commit** records its heads and the kind the engine gave it. -/
theorem commitEntityInTransaction_logged {commit : EntityCommit}
    (h : old.commitEntityInTransaction commit = .ok (.committed, new)) :
    Logged old new (old.commitChange commit) commit.writeSessionKeys := by
  simp only [commitEntityInTransaction] at h
  split at h
  · simp at h
  · obtain ⟨recordedAt, hrecorded, h⟩ := Except.bind_eq_ok.mp h
    obtain ⟨mid, hinsert, h⟩ := Except.bind_eq_ok.mp h
    obtain ⟨next, hreplace, h⟩ := Except.bind_eq_ok.mp h
    obtain ⟨⟨cursor, last⟩, hchange, h⟩ := Except.bind_eq_ok.mp h
    simp only [Except.pure_eq_ok, Except.ok.injEq, Prod.mk.injEq, true_and] at h
    obtain ⟨-, rfl⟩ := sqliteTime_eq_ok.mp hrecorded
    obtain ⟨_, _, _, _, rfl, -⟩ := insertEntityVersions_frame hinsert
    obtain ⟨hnodup, hne, -, rfl⟩ := replacePublishedHeads_eq_ok.mp hreplace
    have hfresh := insertChange_fresh hchange
    obtain ⟨rfl, rfl⟩ := insertChange_eq_ok hchange
    subst h
    exact ⟨⟨hnodup, hne⟩, rfl, rfl, rfl, rfl, rfl, rfl, rfl, rfl, hfresh⟩

/-- What a unit recorded of an entity it publishes. -/
structure Recorded (db : Db) (unit : String) (change : ChangeRow) (sessionKeys : List String) :
    Prop where
  heads : change.headVersionsJson = db.directWorkUnitHeads unit change.key
  row : ∃ e, db.unitEntity? unit change.key = some e ∧ e.causalToken = some change.causalToken ∧
    e.eventMetaJson = some change.eventMetaJson ∧ e.writeSessionKeysJson = some sessionKeys
  kind : db.deriveChangeKind change.key (db.publishedHeads change.key) change.headVersionsJson =
    .ok change.kind

/-- **The publication of a staged entity** records the unit's heads of it, and the kind that follows
from the heads before and after. -/
theorem publishWorkUnitEntity_logged {recordedAt : ℕ}
    (h : publishWorkUnitEntity unit recordedAt old key = .ok new) :
    ∃ change sessionKeys, change.key = key ∧ change.recordedAtUnixMs = recordedAt ∧
      Recorded old unit change sessionKeys ∧ Logged old new change sessionKeys := by
  simp only [publishWorkUnitEntity] at h
  obtain ⟨mid, hreplace, h⟩ := Except.bind_eq_ok.mp h
  obtain ⟨kind, hkind, h⟩ := Except.bind_eq_ok.mp h
  obtain ⟨hnodup, hne, -, rfl⟩ := replacePublishedHeads_eq_ok.mp hreplace
  split at h
  · rename_i causalToken eventMeta sessionKeys _ hentity
    obtain ⟨⟨cursor, last⟩, hchange, h⟩ := Except.bind_eq_ok.mp h
    simp only [Except.pure_eq_ok, Except.ok.injEq] at h
    have hfresh := insertChange_fresh hchange
    obtain ⟨rfl, rfl⟩ := insertChange_eq_ok hchange
    subst h
    refine ⟨{ cursor := old.lastCursor + 1, key, kind
              headVersionsJson := old.directWorkUnitHeads unit key, causalToken
              eventMetaJson := eventMeta, recordedAtUnixMs := recordedAt }, sessionKeys, rfl, rfl,
      ⟨rfl, ⟨_, hentity, rfl, rfl, rfl⟩, ?_⟩, ⟨hnodup, hne⟩, rfl, rfl, rfl, rfl, rfl, rfl, rfl, rfl,
      hfresh⟩
    exact hkind
  · cases h

/-! ### The invariant of the log -/

/-- What the tables of the log say about each other. -/
structure LogInv (db : Db) : Prop where
  frontier : ∀ scope, db.currentScopeCursor scope ≤ db.lastCursor
  history : ∀ h ∈ db.headHistory, 0 < h.cursor ∧ h.cursor ≤ db.currentScopeCursor h.key.scopeJson
  increasing : db.headHistory.Pairwise (·.cursor < ·.cursor)
  heads : ∀ h ∈ db.headHistory, h.headVersionsJson.Nodup ∧ h.headVersionsJson ≠ []
  attained : ∀ scope, db.currentScopeCursor scope = 0 ∨
    ∃ h ∈ db.headHistory, h.key.scopeJson = scope ∧ h.cursor = db.currentScopeCursor scope
  recorded : ∀ c ∈ db.changes, c.history ∈ db.headHistory
  sorted : db.changes.Pairwise (·.cursor < ·.cursor)
  tokens : ∀ t ∈ db.causalFrontier, ∃ h ∈ db.headHistory,
    h.key.scopeJson = t.scopeJson ∧ h.cursor = t.cursor
  kept : ∀ h ∈ db.headHistory, db.prunedThrough h.key.scopeJson < h.cursor →
    ∃ c ∈ db.changes, c.history = h
  pruned : ∀ scope, db.prunedThrough scope ≤ db.currentScopeCursor scope
  reads : ∀ scope session, db.readCursor scope session ≤ db.currentScopeCursor scope
  writes : ∀ scope session, db.writeCursor scope session ≤ db.currentScopeCursor scope

namespace LogInv

theorem empty : LogInv Db.empty := by
  refine ⟨?_, ?_, ?_, ?_, ?_, ?_, ?_, ?_, ?_, ?_, ?_, ?_⟩ <;>
    simp [Db.empty, currentScopeCursor, prunedThrough, readCursor, writeCursor, Table.valueAt]

/-- The log is the same. -/
theorem congr (inv : LogInv old) (hhistory : new.headHistory = old.headHistory)
    (hchanges : new.changes = old.changes) (hlast : new.lastCursor = old.lastCursor)
    (hretention : new.changeRetention = old.changeRetention)
    (hsessions : new.sessionFrontier = old.sessionFrontier)
    (hcausal : new.causalFrontier = old.causalFrontier)
    (hscope : new.scopeFrontier = old.scopeFrontier) : LogInv new := by
  have hcursor : ∀ scope, new.currentScopeCursor scope = old.currentScopeCursor scope :=
    currentScopeCursor_congr hscope
  have hpruned : ∀ scope, new.prunedThrough scope = old.prunedThrough scope := by
    intro scope
    rw [prunedThrough, hretention]
    rfl
  have hread : ∀ scope session, new.readCursor scope session = old.readCursor scope session := by
    intro scope session
    rw [readCursor, hsessions]
    rfl
  have hwrite : ∀ scope session, new.writeCursor scope session = old.writeCursor scope session := by
    intro scope session
    rw [writeCursor, hsessions]
    rfl
  refine ⟨?_, ?_, ?_, ?_, ?_, ?_, ?_, ?_, ?_, ?_, ?_, ?_⟩
  · simpa only [hcursor, hlast] using inv.frontier
  · simpa only [hcursor, hhistory] using inv.history
  · simpa only [hhistory] using inv.increasing
  · simpa only [hhistory] using inv.heads
  · simpa only [hcursor, hhistory] using inv.attained
  · simpa only [hchanges, hhistory] using inv.recorded
  · simpa only [hchanges] using inv.sorted
  · simpa only [hcausal, hhistory] using inv.tokens
  · simpa only [hhistory, hpruned, hchanges] using inv.kept
  · simpa only [hpruned, hcursor] using inv.pruned
  · simpa only [hread, hcursor] using inv.reads
  · simpa only [hwrite, hcursor] using inv.writes

theorem of_samePublished (inv : LogInv old) (h : SamePublished old new) : LogInv new :=
  inv.congr h.headHistory h.changes h.lastCursor h.changeRetention h.sessionFrontier
    h.causalFrontier h.scopeFrontier

/-- One more record. -/
theorem logged (inv : LogInv old) {change : ChangeRow} {sessionKeys : List String}
    (h : Logged old new change sessionKeys) : LogInv new := by
  have hcursor := currentScopeCursor_advance h.scopeFrontier_eq
  have hlater : ∀ r ∈ old.headHistory, r.cursor < change.cursor := by
    intro r hr
    have hr' := (inv.history r hr).2
    have hfrontier := inv.frontier r.key.scopeJson
    have := h.cursor_eq
    omega
  have hmono : ∀ scope, old.currentScopeCursor scope ≤ new.currentScopeCursor scope := by
    intro scope
    have hfrontier := inv.frontier scope
    have := h.cursor_eq
    rw [hcursor]
    split <;> omega
  have hpruned : ∀ scope, new.prunedThrough scope = old.prunedThrough scope := by
    intro scope
    rw [prunedThrough, h.changeRetention_eq]
    rfl
  have hread : ∀ scope session, new.readCursor scope session = old.readCursor scope session := by
    intro scope session
    have hsame : new.readCursor scope session = (old.advanceWriteSessions change.key.scopeJson
        sessionKeys change.cursor).readCursor scope session := by
      rw [readCursor, h.sessionFrontier_eq]
      rfl
    rw [hsame, readCursor_advanceWriteSessions]
  have hmem : ∀ r, r ∈ new.headHistory ↔ r ∈ old.headHistory ∨ r = change.history := by
    intro r
    rw [h.headHistory_eq, List.mem_append, List.mem_singleton]
  refine ⟨fun scope => ?_, fun r hr => ?_, ?_, fun r hr => ?_, fun scope => ?_, ?_, ?_, ?_, ?_, ?_,
    ?_, ?_⟩
  · have hfrontier := inv.frontier scope
    have := h.cursor_eq
    rw [hcursor, h.lastCursor_eq]
    split <;> omega
  · rcases (hmem r).mp hr with hold | rfl
    · exact ⟨(inv.history r hold).1, (inv.history r hold).2.trans (hmono _)⟩
    · refine ⟨?_, ?_⟩
      · show 0 < change.cursor
        rw [h.cursor_eq]
        omega
      · show change.cursor ≤ new.currentScopeCursor change.key.scopeJson
        rw [hcursor, if_pos rfl]
  · rw [h.headHistory_eq, List.pairwise_append]
    refine ⟨inv.increasing, List.pairwise_singleton _ _, fun r hr r' hr' => ?_⟩
    rw [List.mem_singleton.mp hr']
    exact hlater r hr
  · rcases (hmem r).mp hr with hold | rfl
    · exact inv.heads r hold
    · exact h.heads
  · rw [hcursor]
    split
    · rename_i hscope
      exact Or.inr ⟨change.history, (hmem _).mpr (Or.inr rfl), hscope.symm, rfl⟩
    · rcases inv.attained scope with hzero | ⟨r, hr, hrest⟩
      · exact Or.inl hzero
      · exact Or.inr ⟨r, (hmem r).mpr (Or.inl hr), hrest⟩
  · rw [h.changes_eq]
    intro c hc
    rcases List.mem_append.mp hc with hold | hnew
    · exact (hmem _).mpr (Or.inl (inv.recorded c hold))
    · rw [List.mem_singleton.mp hnew]
      exact (hmem _).mpr (Or.inr rfl)
  · rw [h.changes_eq, List.pairwise_append]
    refine ⟨inv.sorted, List.pairwise_singleton _ _, fun c hc c' hc' => ?_⟩
    rw [List.mem_singleton.mp hc']
    exact hlater _ (inv.recorded c hc)
  · rw [h.causalFrontier_eq]
    intro t ht
    rcases List.mem_append.mp ht with hold | hnew
    · obtain ⟨r, hr, hrest⟩ := inv.tokens t hold
      exact ⟨r, (hmem r).mpr (Or.inl hr), hrest⟩
    · rw [List.mem_singleton.mp hnew]
      exact ⟨change.history, (hmem _).mpr (Or.inr rfl), rfl, rfl⟩
  · intro r hr hlt
    rw [hpruned] at hlt
    rw [h.changes_eq]
    rcases (hmem r).mp hr with hold | rfl
    · obtain ⟨c, hc, hrow⟩ := inv.kept r hold hlt
      exact ⟨c, List.mem_append_left _ hc, hrow⟩
    · exact ⟨change, by simp, rfl⟩
  · intro scope
    rw [hpruned]
    exact (inv.pruned scope).trans (hmono scope)
  · intro scope session
    rw [hread]
    exact (inv.reads scope session).trans (hmono scope)
  · intro scope session
    have hsame : new.writeCursor scope session = (old.advanceWriteSessions change.key.scopeJson
        sessionKeys change.cursor).writeCursor scope session := by
      rw [writeCursor, h.sessionFrontier_eq]
      rfl
    rw [hsame]
    rcases writeCursor_advanceWriteSessions_cases old change.key.scopeJson sessionKeys
      change.cursor scope session with heq | ⟨rfl, heq⟩
    · rw [heq]
      exact (inv.writes scope session).trans (hmono scope)
    · rw [heq, hcursor, if_pos rfl]

end LogInv

/-! ### Upkeep -/

/-- The log but for its retention and the sessions. -/
structure SameHistory (old new : Db) : Prop where
  headHistory : new.headHistory = old.headHistory
  lastCursor : new.lastCursor = old.lastCursor
  causalFrontier : new.causalFrontier = old.causalFrontier
  scopeFrontier : new.scopeFrontier = old.scopeFrontier

theorem SameHistory.refl (db : Db) : SameHistory db db := ⟨rfl, rfl, rfl, rfl⟩

theorem SameHistory.trans (h : SameHistory old mid) (h' : SameHistory mid new) :
    SameHistory old new :=
  ⟨h'.headHistory.trans h.headHistory, h'.lastCursor.trans h.lastCursor,
    h'.causalFrontier.trans h.causalFrontier, h'.scopeFrontier.trans h.scopeFrontier⟩

/-- An expired unit leaves the log alone. -/
theorem expireWorkUnit_log {now : ℕ} (h : old.expireWorkUnit unit now = .ok new) :
    SameHistory old new ∧ new.changes = old.changes ∧ new.changeRetention = old.changeRetention ∧
      new.sessionFrontier = old.sessionFrontier := by
  obtain ⟨rfl, -⟩ := expireWorkUnit_spec h
  exact ⟨⟨rfl, rfl, rfl, rfl⟩, rfl, rfl, rfl⟩

end Db

section Effects

variable {A : Automerge} {K : Known} {old mid new : Db} {key : EntityKey}

/-- Upkeep leaves the history alone. -/
theorem Upkeep.sameHistory (h : Upkeep K old new) : SameHistory old new := by
  cases h with
  | sessions => exact ⟨rfl, rfl, rfl, rfl⟩
  | forget => exact ⟨rfl, rfl, rfl, rfl⟩
  | note => exact ⟨rfl, rfl, rfl, rfl⟩
  | prune => exact ⟨rfl, rfl, rfl, rfl⟩
  | expire h =>
    obtain ⟨-, -, -, h⟩ := h
    exact (expireWorkUnit_log h).1
  | openUnit => exact ⟨rfl, rfl, rfl, rfl⟩
  | capture _ _ _ h =>
    obtain ⟨_, _, rfl⟩ := captureWorkUnitEntity_eq h
    exact ⟨rfl, rfl, rfl, rfl⟩

theorem Upkeeps.sameHistory (h : Upkeeps K old new) : SameHistory old new := by
  induction h with
  | refl => exact .refl _
  | tail _ hstep ih => exact ih.trans hstep.sameHistory

/-- Upkeep keeps the invariant of the log: a session reads at a frontier, and what is pruned was
noted. -/
theorem Upkeep.keepsLog (inv : LogInv old) (h : Upkeep K old new) : LogInv new := by
  cases h with
  | sessions scope consistency frontier hfrontier =>
    refine ⟨inv.frontier, inv.history, inv.increasing, inv.heads, inv.attained, inv.recorded,
      inv.sorted, inv.tokens, inv.kept, inv.pruned, fun scope' session => ?_,
      fun scope' session => ?_⟩
    · rcases readCursor_advanceReadSessions_cases old scope consistency frontier scope' session with
        heq | ⟨rfl, heq⟩
      · rw [heq]
        exact inv.reads scope' session
      · rw [heq]
        exact hfrontier
    · rw [writeCursor_advanceReadSessions]
      exact inv.writes scope' session
  | forget now => exact inv.congr rfl rfl rfl rfl rfl rfl rfl
  | note retainedAfter =>
    have hpruned := prunedThrough_recordRetention_cases old retainedAfter
    refine ⟨inv.frontier, inv.history, inv.increasing, inv.heads, inv.attained, inv.recorded,
      inv.sorted, inv.tokens, fun r hr hlt => ?_, fun scope => ?_, inv.reads, inv.writes⟩
    · exact inv.kept r hr ((prunedThrough_le_recordRetention _ _ _).trans_lt hlt)
    · rcases hpruned scope with heq | ⟨change, hchange, -, rfl, heq⟩
      · rw [heq]
        exact inv.pruned scope
      · rw [heq]
        exact (inv.history _ (inv.recorded change hchange)).2
  | prune retainedAfter _ hnoted =>
    refine ⟨inv.frontier, inv.history, inv.increasing, inv.heads, inv.attained, fun c hc => ?_,
      inv.sorted.sublist List.filter_sublist, inv.tokens, fun r hr hlt => ?_, inv.pruned, inv.reads,
      inv.writes⟩
    · exact inv.recorded c (List.mem_filter.mp hc).1
    · obtain ⟨c, hc, rfl⟩ := inv.kept r hr hlt
      refine ⟨c, List.mem_filter.mpr ⟨hc, ?_⟩, rfl⟩
      rw [decide_eq_true_eq]
      by_contra hover
      exact absurd hlt (Nat.not_lt.mpr (hnoted c hc (Nat.lt_of_not_le hover)))
  | expire h =>
    obtain ⟨-, -, -, h⟩ := h
    obtain ⟨hsame, hchanges, hretention, hsessions⟩ := expireWorkUnit_log h
    exact inv.congr hsame.headHistory hchanges hsame.lastCursor hretention hsessions
      hsame.causalFrontier hsame.scopeFrontier
  | openUnit => exact inv.congr rfl rfl rfl rfl rfl rfl rfl
  | capture _ _ _ h =>
    obtain ⟨_, _, rfl⟩ := captureWorkUnitEntity_eq h
    exact inv.congr rfl rfl rfl rfl rfl rfl rfl

/-! ### Effects -/

/-- Records were added to the log, and none was lost. -/
structure Appends (old new : Db) (added : List ChangeRow) : Prop where
  changes_eq : new.changes = old.changes ++ added
  headHistory_eq : new.headHistory = old.headHistory ++ added.map (·.history)
  changeRetention_eq : new.changeRetention = old.changeRetention

namespace Appends

variable {added added' : List ChangeRow}

theorem of_same (h : SameHistory old new) (hchanges : new.changes = old.changes)
    (hretention : new.changeRetention = old.changeRetention) : Appends old new [] :=
  ⟨by simp [hchanges], by simp [h.headHistory], hretention⟩

theorem refl (db : Db) : Appends db db [] := of_same (.refl db) rfl rfl

theorem trans (h : Appends old mid added) (h' : Appends mid new added') :
    Appends old new (added ++ added') :=
  ⟨by rw [h'.changes_eq, h.changes_eq, List.append_assoc],
    by rw [h'.headHistory_eq, h.headHistory_eq, List.map_append, List.append_assoc],
    h'.changeRetention_eq.trans h.changeRetention_eq⟩

end Appends

theorem Db.Logged.appends {change : ChangeRow} {sessionKeys : List String}
    (h : Logged old new change sessionKeys) : Appends old new [change] :=
  ⟨h.changes_eq, h.headHistory_eq, h.changeRetention_eq⟩

/-- The loop of a publication: one record for each entity, in order. -/
theorem foldlM_publishWorkUnitEntity_appends {unit : String} {recordedAt : ℕ}
    {keys : List EntityKey}
    (h : keys.foldlM (publishWorkUnitEntity unit recordedAt) old = .ok new) :
    ∃ added, Appends old new added ∧ added.map (·.key) = keys := by
  induction keys generalizing old with
  | nil =>
    simp only [List.foldlM_nil, Except.pure_eq_ok, Except.ok.injEq] at h
    subst h
    exact ⟨[], .refl _, rfl⟩
  | cons key keys ih =>
    obtain ⟨next, hnext, hrest⟩ := Except.foldlM_cons_eq_ok.mp h
    obtain ⟨change, sessionKeys, hkey, -, -, hlogged⟩ := publishWorkUnitEntity_logged hnext
    obtain ⟨added, hadded, hkeys⟩ := ih hrest
    exact ⟨[change] ++ added, hlogged.appends.trans hadded, by simp [hkey, hkeys]⟩

/-- The end of a publication leaves the log alone. -/
theorem finishWorkUnitPublication_loop {unit : String} {recordedAt : ℕ}
    (h : old.finishWorkUnitPublication unit recordedAt = .ok new) : ∃ mid,
      (old.workUnitMutatedEntities unit).foldlM (publishWorkUnitEntity unit recordedAt) old =
        .ok mid ∧ ∃ workUnits idempotency unitIdempotency,
          new = { mid with workUnits, idempotency, unitIdempotency } := by
  obtain ⟨mid, hloop, h⟩ := Except.bind_eq_ok.mp h
  obtain ⟨next, hrecords, h⟩ := Except.bind_eq_ok.mp h
  simp only [Except.pure_eq_ok, Except.ok.injEq] at h
  obtain ⟨rfl, -⟩ := publishUnitIdempotency_spec hrecords
  exact ⟨mid, hloop, _, _, _, h.symm⟩

/-- A staged mutation leaves the log alone. -/
theorem stageMutation_log {staged : WorkUnitCommit} {recordedAt : ℕ}
    (h : (old.recordStagedMutation staged).stageMutation staged recordedAt = .ok new) :
    SamePublished old new := by
  obtain ⟨mid, hinsert, hreplace⟩ := Except.bind_eq_ok.mp h
  obtain ⟨added, _, _, _, rfl, hadded, -⟩ := insertEntityVersions_frame hinsert
  obtain ⟨-, -, -, -, rfl⟩ := replaceWorkUnitHeads_eq_ok.mp hreplace
  exact ⟨rfl, rfl, rfl, rfl, rfl, rfl, rfl, rfl, fun r hr => mem_append_of_ne hadded (by simp) hr⟩

theorem resolveConflict_log {unit : String} {versions : List StoredEntityVersion}
    {heads : List String} {recordedAt : ℕ}
    (hinsert : old.insertEntityVersions key versions (some unit) recordedAt = .ok mid)
    (h : mid.replaceWorkUnitHeads unit key heads = .ok new) : SamePublished old new := by
  obtain ⟨added, _, _, _, rfl, hadded, -⟩ := insertEntityVersions_frame hinsert
  obtain ⟨-, -, -, -, rfl⟩ := replaceWorkUnitHeads_eq_ok.mp h
  exact ⟨rfl, rfl, rfl, rfl, rfl, rfl, rfl, rfl, fun r hr => mem_append_of_ne hadded (by simp) hr⟩

/-- **Every effect keeps the invariant of the log.** -/
theorem Effect.keepsLog (inv : LogInv old) (h : Effect A K old new) : LogInv new := by
  cases h with
  | upkeep h => exact h.keepsLog inv
  | commit _ _ h => exact inv.logged (commitEntityInTransaction_logged h)
  | record _ h =>
    rw [insertIdempotency_eq h]
    exact inv.congr rfl rfl rfl rfl rfl rfl rfl
  | stage _ _ _ _ _ _ h => exact inv.of_samePublished (stageMutation_log h)
  | stageRecord _ _ _ h =>
    rw [insertWorkUnitIdempotency_eq h]
    exact inv.congr rfl rfl rfl rfl rfl rfl rfl
  | close identity => exact inv.congr rfl rfl rfl rfl rfl rfl rfl
  | resolve _ _ _ _ _ _ hinsert h => exact inv.of_samePublished (resolveConflict_log hinsert h)
  | publish _ _ h =>
    obtain ⟨mid, hloop, _, _, _, rfl⟩ := finishWorkUnitPublication_loop h
    have hmid : LogInv mid := Except.foldlM_inv (I := LogInv)
      (fun db hdb key _ db' hturn => by
        obtain ⟨_, _, -, -, -, hlogged⟩ := publishWorkUnitEntity_logged hturn
        exact hdb.logged hlogged) inv hloop
    exact hmid.congr rfl rfl rfl rfl rfl rfl rfl

theorem Effects.keepsLog (inv : LogInv old) (h : Effects A K old new) : LogInv new := by
  induction h with
  | refl => exact inv
  | tail _ hstep ih => exact hstep.keepsLog ih

theorem Upkeep.appends (hK : ∀ time, ¬ K.retention time) (h : Upkeep K old new) :
    Appends old new [] := by
  cases h with
  | sessions => exact .of_same ⟨rfl, rfl, rfl, rfl⟩ rfl rfl
  | forget => exact .of_same ⟨rfl, rfl, rfl, rfl⟩ rfl rfl
  | note time h => exact absurd h (hK time)
  | prune time h => exact absurd h (hK time)
  | expire h =>
    obtain ⟨-, -, -, h⟩ := h
    obtain ⟨hsame, hchanges, hretention, -⟩ := expireWorkUnit_log h
    exact .of_same hsame hchanges hretention
  | openUnit => exact .of_same ⟨rfl, rfl, rfl, rfl⟩ rfl rfl
  | capture _ _ _ h =>
    obtain ⟨_, _, rfl⟩ := captureWorkUnitEntity_eq h
    exact .of_same ⟨rfl, rfl, rfl, rfl⟩ rfl rfl

theorem Db.SamePublished.appends (h : SamePublished old new) : Appends old new [] :=
  .of_same ⟨h.headHistory, h.lastCursor, h.causalFrontier, h.scopeFrontier⟩ h.changes
    h.changeRetention

/-- Where nothing is pruned, effects only add to the log. -/
theorem Effect.appends (hK : ∀ time, ¬ K.retention time) (h : Effect A K old new) :
    ∃ added, Appends old new added := by
  cases h with
  | upkeep h => exact ⟨[], h.appends hK⟩
  | commit _ _ h => exact ⟨_, (commitEntityInTransaction_logged h).appends⟩
  | record _ h =>
    rw [insertIdempotency_eq h]
    exact ⟨[], .of_same ⟨rfl, rfl, rfl, rfl⟩ rfl rfl⟩
  | stage _ _ _ _ _ _ h => exact ⟨[], (stageMutation_log h).appends⟩
  | stageRecord _ _ _ h =>
    rw [insertWorkUnitIdempotency_eq h]
    exact ⟨[], .of_same ⟨rfl, rfl, rfl, rfl⟩ rfl rfl⟩
  | close identity => exact ⟨[], .of_same ⟨rfl, rfl, rfl, rfl⟩ rfl rfl⟩
  | resolve _ _ _ _ _ _ hinsert h => exact ⟨[], (resolveConflict_log hinsert h).appends⟩
  | publish _ _ h =>
    obtain ⟨mid, hloop, _, _, _, rfl⟩ := finishWorkUnitPublication_loop h
    obtain ⟨added, hadded, -⟩ := foldlM_publishWorkUnitEntity_appends hloop
    exact ⟨added, hadded.changes_eq, hadded.headHistory_eq, hadded.changeRetention_eq⟩

theorem Effects.appends (hK : ∀ time, ¬ K.retention time) (h : Effects A K old new) :
    ∃ added, Appends old new added := by
  induction h with
  | refl => exact ⟨[], .refl _⟩
  | tail _ hstep ih =>
    obtain ⟨added, hadded⟩ := ih
    obtain ⟨added', hadded'⟩ := hstep.appends hK
    exact ⟨added ++ added', hadded.trans hadded'⟩

/-! ### Published versions and the history -/

/-- An entity with a published version is in the history. -/
def Db.VersionsLogged (db : Db) : Prop :=
  ∀ r ∈ db.versions, r.workUnitJson = none → ∃ h ∈ db.headHistory, h.key = r.key

/-- Where no cursor is issued nothing is published. -/
theorem Db.VersionsLogged.of_sameHistory (hold : VersionsLogged old) (inv : Inv A new)
    (hext : Extends old new) (h : SameHistory old new) : VersionsLogged new := by
  intro r hr hnone
  rw [h.headHistory]
  rcases hext.later r hr hnone with hmem | ⟨cursor, hcursor, hlt⟩
  · exact hold r hmem hnone
  · obtain ⟨-, cursor', hcursor', hle⟩ := inv.published.published r hr hnone
    have hfrontier := inv.published.frontier r.key.scopeJson
    rw [hcursor, Option.some.injEq] at hcursor'
    have := h.lastCursor
    omega

theorem Effect.versionsLogged (hlaw : A.Lawful) (inv : Inv A old) (hold : VersionsLogged old)
    (h : Effect A K old new) : VersionsLogged new := by
  obtain ⟨hinv, hext⟩ := h.keeps hlaw inv
  have hquiet := fun hsame : SameHistory old new => hold.of_sameHistory hinv hext hsame
  cases h with
  | upkeep h => exact hquiet h.sameHistory
  | commit hformed _ h =>
    have hlogged := commitEntityInTransaction_logged h
    obtain ⟨-, -, -, ⟨recordedAt, hversions⟩, -⟩ :=
      commitEntityInTransaction_spec hlaw inv.crdt hformed.genuine h
    intro r hr hnone
    rw [hversions] at hr
    rw [hlogged.headHistory_eq]
    rcases List.mem_append.mp hr with hmem | hmem
    · obtain ⟨row, hrow, hkey⟩ := hold r hmem hnone
      exact ⟨row, List.mem_append_left _ hrow, hkey⟩
    · obtain ⟨v, -, rfl⟩ := List.mem_map.mp hmem
      exact ⟨_, List.mem_append_right _ (List.mem_singleton.mpr rfl), rfl⟩
  | record _ h =>
    rw [insertIdempotency_eq h]
    exact hold
  | stage _ _ _ _ _ _ h =>
    have hsame := stageMutation_log h
    exact hquiet ⟨hsame.headHistory, hsame.lastCursor, hsame.causalFrontier, hsame.scopeFrontier⟩
  | stageRecord _ _ _ h =>
    rw [insertWorkUnitIdempotency_eq h]
    exact hold
  | close identity => exact hold
  | resolve _ _ _ _ _ _ hinsert h =>
    have hsame := resolveConflict_log hinsert h
    exact hquiet ⟨hsame.headHistory, hsame.lastCursor, hsame.causalFrontier, hsame.scopeFrontier⟩
  | publish hunit hclosing h =>
    obtain ⟨mid, -, hpublished, -, -, -, heq⟩ :=
      finishWorkUnitPublication_spec inv hunit (Or.inr hclosing) h
    obtain ⟨mid', hloop, _, _, _, heq'⟩ := finishWorkUnitPublication_loop h
    obtain ⟨added, hadded, hkeys⟩ := foldlM_publishWorkUnitEntity_appends hloop
    have hhistory : new.headHistory = mid'.headHistory := by rw [heq']
    have hversions : new.versions = mid.versions := by rw [heq]
    intro r hr hnone
    rw [hversions] at hr
    rw [hhistory, hadded.headHistory_eq]
    rcases hpublished.from_old r hr with ⟨hmem, -⟩ | ⟨r', -, -, hkey, cursor, rfl⟩
    · obtain ⟨row, hrow, hrowKey⟩ := hold r hmem hnone
      exact ⟨row, List.mem_append_left _ hrow, hrowKey⟩
    · rw [← hkeys] at hkey
      obtain ⟨change, hchange, hchangeKey⟩ := List.mem_map.mp hkey
      exact ⟨change.history, List.mem_append_right _ (List.mem_map_of_mem hchange), hchangeKey⟩

theorem Effects.versionsLogged (hlaw : A.Lawful) (inv : Inv A old) (hold : VersionsLogged old)
    (h : Effects A K old new) : VersionsLogged new := by
  induction h with
  | refl => exact hold
  | tail hbefore hstep ih =>
    exact hstep.versionsLogged hlaw (Effects.keeps hlaw inv hbefore).1 ih

end Effects

end Patchouli
