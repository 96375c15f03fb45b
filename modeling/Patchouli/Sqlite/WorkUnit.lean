import Patchouli.Sqlite.Read

/-!
# Work units

A work unit reads a fixed baseline: the published state of its scope when it was opened. The
baseline of an entity is captured the first time the unit meets the entity, from the head history
and the publication cursors of versions. What the unit stages lies over it.

## Main definitions

* `Db.ensureWorkUnit` — open the unit, or say what became of it
* `Db.captureWorkUnitEntity`, `Db.workUnitHeads`, `Db.readWorkUnitSnapshot`
* `readEntityInWorkUnit`, `readIdempotencyInWorkUnit` — the provider calls
-/

namespace Patchouli

/-- `StoredWorkUnitState`. -/
inductive StoredWorkUnitState where
  | opened
  | closing
  | policyMismatch
  | committed
  | expired
  deriving DecidableEq

namespace Db

/-! ### Opening -/

/-- `INSERT INTO patchouli_work_unit`, with the frontier of the scope as the baseline. -/
def openWorkUnit (db : Db) (workUnit : WorkUnit) (now expires : ℕ) : Db :=
  { db with
    workUnits := db.workUnits ++
      [{ identityJson := workUnit.identityJson
         scopeJson := workUnit.scopeJson
         state := .opened
         policyJson := workUnit.policyJson
         expiryAction := workUnit.expiryAction
         openedAtUnixMs := now
         expiresAtUnixMs := expires
         baselineCursor := db.currentScopeCursor workUnit.scopeJson
         closedAtUnixMs := none }] }

/-- `ensure_work_unit`. -/
def ensureWorkUnit (db : Db) (workUnit : WorkUnit) :
    Except ProviderError (StoredWorkUnitState × Db) :=
  match db.workUnit? workUnit.identityJson with
  | none => do
    let now ← sqliteTime workUnit.nowUnixMs "work-unit timestamp exceeds SQLite integer range"
    let expires ← sqliteTime workUnit.expiresAtUnixMs
      "work-unit expiry exceeds SQLite integer range"
    if expires ≤ now then
      .error (ProviderError.new "work-unit expiry must be later than its opening time")
    else return (.opened, db.openWorkUnit workUnit now expires)
  | some row =>
    if row.scopeJson ≠ workUnit.scopeJson ∨ row.policyJson ≠ workUnit.policyJson ∨
        row.expiryAction ≠ workUnit.expiryAction then
      .ok (.policyMismatch, db)
    else
      match row.state with
      | .committed => .ok (.committed, db)
      | .expired => .ok (.expired, db)
      | .closing =>
        if workUnit.nowUnixMs < row.expiresAtUnixMs then .ok (.closing, db)
        else do
          let db ← db.expireWorkUnit workUnit.identityJson workUnit.nowUnixMs
          return (.expired, db)
      | .opened =>
        if workUnit.nowUnixMs < row.expiresAtUnixMs then .ok (.opened, db)
        else do
          let db ← db.expireWorkUnit workUnit.identityJson workUnit.nowUnixMs
          return (.expired, db)

/-- `work_unit_baseline`. -/
def workUnitBaseline (db : Db) (unit : String) : Except ProviderError ℕ :=
  match db.workUnit? unit with
  | some row => .ok row.baselineCursor
  | none => .error (databaseError "Query returned no rows")

/-! ### The baseline -/

/-- The newest of some history rows. -/
def newest (rows : List HeadHistoryRow) : Option HeadHistoryRow :=
  rows.foldl (fun best row =>
    match best with
    | some b => if b.cursor < row.cursor then some row else some b
    | none => some row) none

/-- The heads an entity had at a cursor. -/
def headsAt (db : Db) (key : EntityKey) (cutoff : ℕ) : List String :=
  match newest (db.headHistory.filter fun row => row.key = key ∧ row.cursor ≤ cutoff) with
  | some row => row.headVersionsJson
  | none => []

theorem newest_append (rows : List HeadHistoryRow) (row : HeadHistoryRow) :
    newest (rows ++ [row]) =
      match newest rows with
      | some b => if b.cursor < row.cursor then some row else some b
      | none => some row := by
  simp only [newest, List.foldl_append, List.foldl_cons, List.foldl_nil]

theorem newest_mem {rows : List HeadHistoryRow} {row : HeadHistoryRow}
    (h : newest rows = some row) : row ∈ rows := by
  induction rows using List.reverseRecOn generalizing row with
  | nil => cases h
  | append_singleton rows last ih =>
    rw [newest_append] at h
    split at h
    · rename_i b hb
      split at h
      · cases h
        simp
      · cases h
        exact List.mem_append_left _ (ih hb)
    · cases h
      simp

/-- A row newer than all others is the newest. -/
theorem newest_append_of_lt {rows : List HeadHistoryRow} {row : HeadHistoryRow}
    (h : ∀ r ∈ rows, r.cursor < row.cursor) : newest (rows ++ [row]) = some row := by
  rw [newest_append]
  split
  · rename_i b hb
    rw [if_pos (h b (newest_mem hb))]
  · rfl

theorem mem_headsAt {db : Db} {key : EntityKey} {cutoff : ℕ} {version : String}
    (h : version ∈ db.headsAt key cutoff) : ∃ row ∈ db.headHistory, row.key = key ∧
      row.cursor ≤ cutoff ∧ version ∈ row.headVersionsJson := by
  simp only [headsAt] at h
  split at h
  · rename_i row hrow
    obtain ⟨hmem, hcond⟩ := List.mem_filter.mp (newest_mem hrow)
    simp only [decide_eq_true_eq] at hcond
    exact ⟨row, hmem, hcond.1, hcond.2, h⟩
  · cases h

section Append

variable {db db' : Db} {key : EntityKey} {row : HeadHistoryRow} {cutoff : ℕ}

/-- A later row is not seen. -/
theorem headsAt_append_of_gt (h : db'.headHistory = db.headHistory ++ [row])
    (hcutoff : cutoff < row.cursor) : db'.headsAt key cutoff = db.headsAt key cutoff := by
  have hnil : [row].filter (fun r => decide (r.key = key ∧ r.cursor ≤ cutoff)) = [] := by
    simp
    omega
  simp only [headsAt, h, List.filter_append, hnil, List.append_nil]

theorem headsAt_append_of_ne (h : db'.headHistory = db.headHistory ++ [row])
    (hkey : row.key ≠ key) : db'.headsAt key cutoff = db.headsAt key cutoff := by
  have hnil : [row].filter (fun r => decide (r.key = key ∧ r.cursor ≤ cutoff)) = [] := by
    simp [hkey]
  simp only [headsAt, h, List.filter_append, hnil, List.append_nil]

/-- The last row is what is seen from its cursor on. -/
theorem headsAt_append_self (h : db'.headHistory = db.headHistory ++ [row])
    (hcutoff : row.cursor ≤ cutoff) (hlast : ∀ r ∈ db.headHistory, r.cursor < row.cursor) :
    db'.headsAt row.key cutoff = row.headVersionsJson := by
  have hone : [row].filter (fun r => decide (r.key = row.key ∧ r.cursor ≤ cutoff)) = [row] := by
    simp [hcutoff]
  simp only [headsAt, h, List.filter_append, hone]
  rw [newest_append_of_lt fun r hr => hlast r (List.mem_filter.mp hr).1]

/-- Nothing was published between two cursors: the heads are the same. -/
theorem headsAt_congr {cutoff' : ℕ} (h : ∀ r ∈ db.headHistory, r.key = key →
    (r.cursor ≤ cutoff ↔ r.cursor ≤ cutoff')) : db.headsAt key cutoff = db.headsAt key cutoff' := by
  have hfilter : db.headHistory.filter (fun r => decide (r.key = key ∧ r.cursor ≤ cutoff)) =
      db.headHistory.filter (fun r => decide (r.key = key ∧ r.cursor ≤ cutoff')) := by
    refine List.filter_congr fun r hr => decide_eq_decide.mpr ?_
    exact and_congr_right fun hkey => h r hr hkey
  simp only [headsAt, hfilter]

end Append

/-- The base rows of an entity for a unit opened at `cutoff`. -/
def baselineRows (db : Db) (unit : String) (key : EntityKey) (cutoff : ℕ) :
    List WorkUnitBaseVersionRow :=
  (db.versions.filter fun row => row.key = key ∧ row.publishedCursor.any (· ≤ cutoff)).map
    fun row => ⟨unit, key, row.version, row.version ∈ db.headsAt key cutoff⟩

/-- `capture_work_unit_entity`. -/
def captureWorkUnitEntity (db : Db) (unit : String) (key : EntityKey) :
    Except ProviderError Db :=
  if (db.unitEntity? unit key).isSome then .ok db
  else
    match db.workUnit? unit with
    | none => .error (databaseError "FOREIGN KEY constraint failed")
    | some row => .ok
      { db with
        unitEntities := db.unitEntities ++ [⟨unit, key, none, none, none, none, false⟩]
        unitBaseVersions := db.unitBaseVersions ++ db.baselineRows unit key row.baselineCursor }

/-- `work_unit_base_heads`. -/
def workUnitBaseHeads (db : Db) (unit : String) (key : EntityKey) : List String :=
  Table.sorted ((db.unitBaseVersions.filter fun row =>
    row.workUnitJson = unit ∧ row.key = key ∧ row.isHead).map (·.version))

/-- `direct_work_unit_heads`. -/
def directWorkUnitHeads (db : Db) (unit : String) (key : EntityKey) : List String :=
  Table.sorted ((db.unitHeads.filter fun row =>
    row.workUnitJson = unit ∧ row.key = key).map (·.version))

/-- `work_unit_heads`. -/
def workUnitHeads (db : Db) (unit : String) (key : EntityKey) : List String :=
  if db.directWorkUnitHeads unit key = [] then db.workUnitBaseHeads unit key
  else db.directWorkUnitHeads unit key

/-- A version of the baseline of a unit. -/
def InBaseline (db : Db) (unit : String) (key : EntityKey) (version : String) : Prop :=
  ∃ row ∈ db.unitBaseVersions, row.workUnitJson = unit ∧ row.key = key ∧ row.version = version

instance (db : Db) (unit : String) (key : EntityKey) (version : String) :
    Decidable (db.InBaseline unit key version) :=
  inferInstanceAs (Decidable (∃ row ∈ db.unitBaseVersions, row.workUnitJson = unit ∧
    row.key = key ∧ row.version = version))

/-- `read_work_unit_snapshot`: the baseline and what the unit staged, each version once. -/
def readWorkUnitSnapshot (db : Db) (unit : String) (key : EntityKey) : Option EntitySnapshot :=
  if db.workUnitHeads unit key = [] then none
  else some
    { headVersions := db.workUnitHeads unit key
      versions := db.snapshotVersions fun row =>
        row.key = key ∧ (db.InBaseline unit key row.version ∨ row.workUnitJson = some unit) }

end Db

/-! ### The calls -/

/-- A unit that is not open, as the caller is told. -/
def closedOutcome {α : Type} : StoredWorkUnitState → Option (WorkUnitOutcome α)
  | .opened => none
  | .closing => some .closing
  | .policyMismatch => some .policyMismatch
  | .committed => some .committed
  | .expired => some .expired

/-- `read_entity_in_work_unit`. -/
def readEntityInWorkUnit (db : Db) (clock : Clock) (workUnit : WorkUnit) (key : EntityKey)
    (consistency : ReadConsistency) : Reply WorkUnitReadOutcome :=
  sweepThen db clock fun db => transaction db (do
    let (state, db) ← db.ensureWorkUnit workUnit
    match closedOutcome state with
    | some outcome => commitBeforeDeadline clock.commit workUnit.deadlineUnixMs db outcome
    | none => do
      let baseline ← db.workUnitBaseline workUnit.identityJson
      match ← consistencyObservation db clock.observe workUnit.scopeJson consistency baseline with
      | none => rollback (.opened .unavailable)
      | some observation => do
        let db ← db.captureWorkUnitEntity workUnit.identityJson key
        let value := db.readWorkUnitSnapshot workUnit.identityJson key
        commitBeforeDeadline clock.commit workUnit.deadlineUnixMs
          (db.advanceReadSessions workUnit.scopeJson consistency baseline)
          (.opened (.read value observation)))

/-- The second half of `read_work_unit_idempotency`: the published record, then the staged one. -/
def findWorkUnitIdempotency (db : Db) (unit identity : String) (request : Mutation) (now : ℕ)
    (allowReplay : Bool) : Except ProviderError (IdempotencyReadOutcome × Db) := do
  let db ← db.deleteOverdueIdempotency now
  match db.idempotency? identity with
  | some record =>
    return (if record.requestJson = request then .replayed record.resultJson else .conflict, db)
  | none =>
    match db.unitIdempotency? identity with
    | none => return (.missing, db)
    | some staged =>
      if staged.workUnitJson = unit ∧ staged.record.requestJson = request then
        return (if allowReplay then .replayed staged.record.resultJson else .missing, db)
      else return (.conflict, db)

/-- `read_work_unit_idempotency` inside its transaction. -/
def readWorkUnitIdempotency (db : Db) (workUnit : WorkUnit) (identity : String)
    (request : Mutation) (now : ℕ) (allowReplay : Bool) :
    Except ProviderError (IdempotencyReadOutcome × Db) := do
  let (state, db) ← db.ensureWorkUnit workUnit
  match state with
  | .policyMismatch => return (.conflict, db)
  | .expired => return (.missing, db)
  | .opened | .closing | .committed =>
    findWorkUnitIdempotency db workUnit.identityJson identity request now allowReplay

/-- `read_idempotency_in_work_unit`. -/
def readIdempotencyInWorkUnit (db : Db) (clock : Clock) (workUnit : WorkUnit)
    (consistency : ReadConsistency) (identity : String) (request : Mutation) (now : ℕ)
    (allowReplay : Bool) : Reply IdempotencyReadOutcome :=
  transaction db (do
    let (outcome, db) ← readWorkUnitIdempotency db workUnit identity request now allowReplay
    let baseline ← db.workUnitBaseline workUnit.identityJson
    match ← consistencyObservation db clock.observe workUnit.scopeJson consistency baseline with
    | none => rollback .unavailable
    | some observation =>
      commitBeforeDeadline clock.commit workUnit.deadlineUnixMs
        (db.advanceReadSessions workUnit.scopeJson consistency observation.frontier) outcome)

end Patchouli
