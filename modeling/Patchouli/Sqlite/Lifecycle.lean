import Patchouli.Sqlite.Sweeps
import Patchouli.Backend.Startup

/-!
# Starting and stopping the SQLite provider

The file of a provider is more than its tables: the header holds the version of the schema, and one
row says which run of a provider it is in. `initialize` counts that row up and reports whether the
run before was ended; `shutdown` ends the run. Both are one transaction that also expires the units
whose deadline has passed.

`Db` has every table from the start. So the tables of a file are there from its first
initialization on: until then the row is absent, and a statement fails.

## Main definitions

* `RuntimeState`, `Storage` — the row, and the file
* `Storage.initializeInTransaction`, `Storage.shutdownInTransaction`
* `Storage.initializeProvider`, `Storage.shutdownProvider` — the calls

## Main results

* `Storage.initializeInTransaction_eq_ok`, `Storage.shutdownInTransaction_eq_ok` — what they do
-/

namespace Patchouli

open Db

/-! ### The file -/

/-- The row of `patchouli_runtime_state`. -/
structure RuntimeState where
  generation : ℕ
  running : Bool
  startedAtUnixMs : ℕ
  cleanShutdownAtUnixMs : Option ℕ
  deriving DecidableEq

/-- A database file. -/
structure Storage where
  userVersion : ℤ
  runtime : Option RuntimeState
  db : Db

/-- `STORAGE_SCHEMA_VERSION`. -/
def storageSchemaVersion : ℤ := 12

namespace Storage

/-- A file that no provider has initialized, with the version that its header has. -/
def untouched (userVersion : ℤ) : Storage := ⟨userVersion, none, Db.empty⟩

/-- The row that `INSERT OR IGNORE` puts there. -/
def initialRuntime : RuntimeState := ⟨0, false, 0, none⟩

/-- The version of the file after the check. -/
def checkUserVersion (userVersion : ℤ) : Except ProviderError ℤ :=
  if userVersion = 0 then .ok storageSchemaVersion
  else if userVersion ≠ storageSchemaVersion then
    .error (.new ("unsupported SQLite storage schema version " ++ toString userVersion ++
      "; expected " ++ toString storageSchemaVersion))
  else .ok userVersion

/-- `checked_add`, on a `u64`. -/
def nextGeneration (generation : ℕ) : Except ProviderError ℕ :=
  if generation + 1 < 2 ^ 64 then .ok (generation + 1)
  else .error (.new "runtime generation overflow")

/-- The transaction of `initialize`. -/
def initializeInTransaction (storage : Storage) (startedAt : ℕ) :
    Except ProviderError (ProviderRecovery × Storage) := do
  let userVersion ← checkUserVersion storage.userVersion
  let runtime := storage.runtime.getD initialRuntime
  let db ← storage.db.expireOpenWorkUnits startedAt
  let generation ← nextGeneration runtime.generation
  let bound ← bindUnsigned generation
  let startedAt ← bindUnsigned startedAt
  return (⟨generation, runtime.running⟩, ⟨userVersion, some ⟨bound, true, startedAt, none⟩, db⟩)

/-- The transaction of `shutdown`. -/
def shutdownInTransaction (storage : Storage) (shutdownAt : ℕ) : Except ProviderError Storage :=
  match storage.runtime with
  | none => .error (databaseError "no such table: patchouli_work_unit")
  | some runtime => do
    let db ← storage.db.expireOpenWorkUnits shutdownAt
    let shutdownAt ← bindUnsigned shutdownAt
    return { storage with
      runtime := some { runtime with running := false, cleanShutdownAtUnixMs := some shutdownAt }
      db }

/-- `initialize`, on the thread of the connection. -/
def initializeProvider (storage : Storage) (startedAt : ℕ) :
    Except ProviderError ProviderRecovery × Storage :=
  match storage.initializeInTransaction startedAt with
  | .ok (recovery, storage) => (.ok recovery, storage)
  | .error error => (.error (.new ("SQLite initialization failed: " ++ error.message)), storage)

/-- `shutdown`, on the thread of the connection. The log is truncated after the transaction is
committed, and so the file can be marked ended where the call fails. -/
def shutdownProvider (storage : Storage) (shutdownAt busy : ℕ) : Except ProviderError Unit × Storage :=
  match storage.shutdownInTransaction shutdownAt with
  | .ok storage =>
    if busy ≠ 0 then
      (.error (.new
        "SQLite shutdown failed: SQLite WAL could not be truncated during shutdown"), storage)
    else (.ok (), storage)
  | .error error => (.error (.new ("SQLite shutdown failed: " ++ error.message)), storage)

/-! ### What they do -/

section Specs

variable {storage next : Storage} {now : ℕ}

theorem nextGeneration_eq_ok {generation following : ℕ} :
    nextGeneration generation = .ok following ↔
      generation + 1 < 2 ^ 64 ∧ following = generation + 1 := by
  rw [nextGeneration]
  split
  · simp_all [eq_comm]
  · simp_all

theorem checkUserVersion_eq_ok {userVersion checked : ℤ} :
    checkUserVersion userVersion = .ok checked ↔
      (userVersion = 0 ∨ userVersion = storageSchemaVersion) ∧ checked = storageSchemaVersion := by
  rw [checkUserVersion]
  by_cases hzero : userVersion = 0
  · simp [hzero, eq_comm]
  · by_cases hversion : userVersion = storageSchemaVersion
    · simp [hversion, storageSchemaVersion, eq_comm]
    · simp [hzero, hversion]

/-- Expiring the open units is a sweep. -/
theorem sweep_of_expire {db swept : Db} (h : db.expireOpenWorkUnits now = .ok swept) :
    db.sweepExpiredWorkUnits now = ⟨.ok (), swept⟩ := by
  show transaction db (db.expireOpenWorkUnits now >>= fun db => commit db ()) = _
  rw [h]
  rfl

theorem lt_of_expire {db swept : Db} (h : db.expireOpenWorkUnits now = .ok swept) :
    now < 2 ^ 63 := by
  obtain ⟨bound, hbound, -⟩ := Except.bind_eq_ok.mp h
  exact (bindUnsigned_eq_ok.mp hbound).1

/-- **What an initialization does**: it takes a file of its own version or of none, counts the
generation up, reports whether the last run was left running, and sweeps. -/
theorem initializeInTransaction_eq_ok {recovery : ProviderRecovery} :
    storage.initializeInTransaction now = .ok (recovery, next) ↔
      (storage.userVersion = 0 ∨ storage.userVersion = storageSchemaVersion) ∧
      (storage.runtime.getD initialRuntime).generation + 1 < 2 ^ 63 ∧
      recovery = ⟨(storage.runtime.getD initialRuntime).generation + 1,
        (storage.runtime.getD initialRuntime).running⟩ ∧
      next.userVersion = storageSchemaVersion ∧
      next.runtime = some ⟨recovery.generation, true, now, none⟩ ∧
      storage.db.expireOpenWorkUnits now = .ok next.db := by
  constructor
  · intro h
    obtain ⟨version, hversion, hchecked⟩ := Except.bind_eq_ok.mp h
    obtain ⟨swept, hswept, hexpired⟩ := Except.bind_eq_ok.mp hchecked
    obtain ⟨generation, hgeneration, hcounted⟩ := Except.bind_eq_ok.mp hexpired
    obtain ⟨bound, hbound, hstored⟩ := Except.bind_eq_ok.mp hcounted
    obtain ⟨started, hstarted, hend⟩ := Except.bind_eq_ok.mp hstored
    obtain ⟨hknown, rfl⟩ := checkUserVersion_eq_ok.mp hversion
    obtain ⟨-, rfl⟩ := nextGeneration_eq_ok.mp hgeneration
    obtain ⟨hsmall, rfl⟩ := bindUnsigned_eq_ok.mp hbound
    obtain ⟨-, rfl⟩ := bindUnsigned_eq_ok.mp hstarted
    cases hend
    exact ⟨hknown, hsmall, rfl, rfl, rfl, hswept⟩
  · rintro ⟨hknown, hsmall, rfl, hversion, hruntime, hswept⟩
    obtain ⟨version, runtime, db⟩ := next
    simp only at hversion hruntime hswept
    subst hversion hruntime
    refine Except.bind_eq_ok.mpr ⟨_, checkUserVersion_eq_ok.mpr ⟨hknown, rfl⟩, ?_⟩
    refine Except.bind_eq_ok.mpr ⟨_, hswept, ?_⟩
    refine Except.bind_eq_ok.mpr ⟨_, nextGeneration_eq_ok.mpr ⟨by omega, rfl⟩, ?_⟩
    refine Except.bind_eq_ok.mpr ⟨_, bindUnsigned_eq_ok.mpr ⟨hsmall, rfl⟩, ?_⟩
    exact Except.bind_eq_ok.mpr ⟨_, bindUnsigned_eq_ok.mpr ⟨lt_of_expire hswept, rfl⟩, rfl⟩

/-- **What a shutdown does**: it marks the run ended, keeps its generation, and sweeps. -/
theorem shutdownInTransaction_eq_ok :
    storage.shutdownInTransaction now = .ok next ↔
      next.userVersion = storage.userVersion ∧
      (∃ runtime, storage.runtime = some runtime ∧
        next.runtime = some { runtime with running := false, cleanShutdownAtUnixMs := some now }) ∧
      storage.db.expireOpenWorkUnits now = .ok next.db := by
  rw [shutdownInTransaction]
  cases hruntime : storage.runtime with
  | none => simp
  | some runtime =>
    constructor
    · intro h
      obtain ⟨swept, hswept, hexpired⟩ := Except.bind_eq_ok.mp h
      obtain ⟨bound, hbound, hend⟩ := Except.bind_eq_ok.mp hexpired
      obtain ⟨-, rfl⟩ := bindUnsigned_eq_ok.mp hbound
      cases hend
      exact ⟨rfl, ⟨runtime, rfl, rfl⟩, hswept⟩
    · rintro ⟨hversion, ⟨row', hrow, hnext⟩, hswept⟩
      cases hrow
      obtain ⟨version, row, db⟩ := next
      simp only at hversion hnext hswept
      subst hversion hnext
      refine Except.bind_eq_ok.mpr ⟨_, hswept, ?_⟩
      exact Except.bind_eq_ok.mpr ⟨_, bindUnsigned_eq_ok.mpr ⟨lt_of_expire hswept, rfl⟩, rfl⟩

end Specs

end Storage

end Patchouli
