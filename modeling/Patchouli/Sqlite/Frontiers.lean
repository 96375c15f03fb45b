import Patchouli.Sqlite.Read

/-!
# Marks that only rise

Three tables keep a number under a key and only ever raise it: how far the changes of a scope were
pruned, and how far a session has read and written in a scope. Each statement that writes them is a
loop of upserts with `max`, and what it leaves is what was there or one of the numbers it was
given.

## Main definitions

* `Db.prunedThrough`, `Db.readCursor`, `Db.writeCursor` — the three marks

## Main results

* `sessionRequirement_eq` — what a session requires, in terms of its marks
* `prunedThrough_recordRetention_cases`, `readCursor_advanceReadSessions_cases`,
  `writeCursor_advanceWriteSessions_cases`
-/

namespace Patchouli

namespace Db

variable (db : Db)

/-- The cursor a scope was pruned through. -/
def prunedThrough (scope : String) : ℕ :=
  Table.valueAt (·.scopeJson) (·.prunedThroughCursor) db.changeRetention scope

/-- The key of a session row. -/
def sessionKey (row : SessionFrontierRow) : String × String := (row.scopeJson, row.sessionKeyJson)

/-- The cursor a session has read through. -/
def readCursor (scope session : String) : ℕ :=
  Table.valueAt sessionKey (·.readCursor) db.sessionFrontier (scope, session)

/-- The cursor of the last write of a session. -/
def writeCursor (scope session : String) : ℕ :=
  Table.valueAt sessionKey (·.writeCursor) db.sessionFrontier (scope, session)

/-- What a session requires of a read. -/
theorem sessionRequirement_eq (scope : String) (session : SessionConsistency) :
    db.sessionRequirement scope session =
      max (if session.monotonicReads then db.readCursor scope session.keyJson else 0)
        (if session.readYourWrites then db.writeCursor scope session.keyJson else 0) := by
  have hfind : (db.sessionFrontier.find? fun row => sessionKey row = (scope, session.keyJson)) =
      db.sessionFrontier.find? fun row =>
        row.scopeJson = scope ∧ row.sessionKeyJson = session.keyJson := by
    simp only [sessionKey, Prod.mk.injEq]
  simp only [sessionRequirement, readCursor, writeCursor, Table.valueAt, hfind]
  cases db.sessionFrontier.find? fun row =>
    row.scopeJson = scope ∧ row.sessionKeyJson = session.keyJson with
  | none => simp
  | some row => rfl

/-! ### Pruning -/

section Prune

variable (retainedAfter : ℕ) (scope : String)

theorem recordRetention_raises : Table.Raises (·.scopeJson) (·.prunedThroughCursor)
    (fun change : ChangeRow => (⟨change.key.scopeJson, change.cursor⟩ : ChangeRetentionRow))
    (fun change row => { row with
      prunedThroughCursor := max row.prunedThroughCursor change.cursor }) :=
  ⟨fun _ _ => rfl, fun _ _ => rfl⟩

theorem prunedThrough_le_recordRetention :
    db.prunedThrough scope ≤ (db.recordRetention retainedAfter).prunedThrough scope :=
  recordRetention_raises.le_valueAt _ _ _

/-- What is about to be pruned is noted. -/
theorem prunedThrough_recordRetention_covers {change : ChangeRow} (hchange : change ∈ db.changes)
    (hover : change.recordedAtUnixMs < retainedAfter) :
    change.cursor ≤ (db.recordRetention retainedAfter).prunedThrough change.key.scopeJson :=
  recordRetention_raises.valueAt_covers db.changeRetention
    (List.mem_filter.mpr ⟨hchange, decide_eq_true hover⟩)

/-- What is noted was noted before, or is a change about to be pruned. -/
theorem prunedThrough_recordRetention_cases :
    (db.recordRetention retainedAfter).prunedThrough scope = db.prunedThrough scope ∨
      ∃ change ∈ db.changes, change.recordedAtUnixMs < retainedAfter ∧
        change.key.scopeJson = scope ∧
        (db.recordRetention retainedAfter).prunedThrough scope = change.cursor := by
  refine (recordRetention_raises.valueAt_cases _ db.changeRetention scope).imp_right ?_
  rintro ⟨change, hmem, hscope, heq⟩
  obtain ⟨hchange, hover⟩ := List.mem_filter.mp hmem
  exact ⟨change, hchange, of_decide_eq_true hover, hscope, heq⟩

end Prune

/-! ### Sessions -/

section Sessions

variable (scope : String) (consistency : ReadConsistency) (keys : List String) (cursor : ℕ)
  (scope' session : String)

theorem advanceReadSessions_raises : Table.Raises sessionKey (·.readCursor)
    (fun session : SessionConsistency => ⟨scope, session.keyJson, cursor, 0⟩)
    (fun _ row => { row with readCursor := max row.readCursor cursor }) :=
  ⟨fun _ _ => rfl, fun _ _ => rfl⟩

theorem advanceWriteSessions_raises : Table.Raises sessionKey (·.writeCursor)
    (fun session : String => ⟨scope, session, 0, cursor⟩)
    (fun _ row => { row with writeCursor := max row.writeCursor cursor }) :=
  ⟨fun _ _ => rfl, fun _ _ => rfl⟩

theorem readCursor_le_advanceReadSessions : db.readCursor scope' session ≤
    (db.advanceReadSessions scope consistency cursor).readCursor scope' session :=
  (advanceReadSessions_raises scope cursor).le_valueAt _ _ _

variable {consistency} in
/-- A monotonic session of a read has read through its frontier. -/
theorem readCursor_advanceReadSessions_covers {s : SessionConsistency}
    (hs : s ∈ consistency.sessions) (hmonotonic : s.monotonicReads = true) :
    cursor ≤ (db.advanceReadSessions scope consistency cursor).readCursor scope s.keyJson :=
  (advanceReadSessions_raises scope cursor).valueAt_covers db.sessionFrontier
    (List.mem_filter.mpr ⟨hs, hmonotonic⟩)

theorem readCursor_advanceReadSessions_cases :
    (db.advanceReadSessions scope consistency cursor).readCursor scope' session =
        db.readCursor scope' session ∨
      scope' = scope ∧
        (db.advanceReadSessions scope consistency cursor).readCursor scope' session = cursor := by
  refine ((advanceReadSessions_raises scope cursor).valueAt_cases _ db.sessionFrontier
    (scope', session)).imp_right ?_
  rintro ⟨s, -, hkey, heq⟩
  exact ⟨(congrArg Prod.fst hkey).symm, heq⟩

/-- Reading leaves the writes of a session alone. -/
theorem writeCursor_advanceReadSessions :
    (db.advanceReadSessions scope consistency cursor).writeCursor scope' session =
      db.writeCursor scope' session := by
  have h : Table.Raises sessionKey (·.writeCursor)
      (fun session : SessionConsistency => (⟨scope, session.keyJson, cursor, 0⟩ : SessionFrontierRow))
      (fun _ row => { row with readCursor := max row.readCursor cursor }) :=
    ⟨fun _ _ => rfl, fun _ _ => (Nat.max_zero _).symm⟩
  exact h.valueAt_of_zero (fun _ => rfl) _ _ _

theorem writeCursor_le_advanceWriteSessions : db.writeCursor scope' session ≤
    (db.advanceWriteSessions scope keys cursor).writeCursor scope' session :=
  (advanceWriteSessions_raises scope cursor).le_valueAt _ _ _

variable {keys session} in
/-- A session named by a write has written at its cursor. -/
theorem writeCursor_advanceWriteSessions_covers (hsession : session ∈ keys) :
    cursor ≤ (db.advanceWriteSessions scope keys cursor).writeCursor scope session :=
  (advanceWriteSessions_raises scope cursor).valueAt_covers db.sessionFrontier hsession

theorem writeCursor_advanceWriteSessions_cases :
    (db.advanceWriteSessions scope keys cursor).writeCursor scope' session =
        db.writeCursor scope' session ∨
      scope' = scope ∧
        (db.advanceWriteSessions scope keys cursor).writeCursor scope' session = cursor := by
  refine ((advanceWriteSessions_raises scope cursor).valueAt_cases _ db.sessionFrontier
    (scope', session)).imp_right ?_
  rintro ⟨key, -, hkey, heq⟩
  exact ⟨(congrArg Prod.fst hkey).symm, heq⟩

/-- Writing leaves the reads of a session alone. -/
theorem readCursor_advanceWriteSessions :
    (db.advanceWriteSessions scope keys cursor).readCursor scope' session =
      db.readCursor scope' session := by
  have h : Table.Raises sessionKey (·.readCursor)
      (fun session : String => (⟨scope, session, 0, cursor⟩ : SessionFrontierRow))
      (fun _ row => { row with writeCursor := max row.writeCursor cursor }) :=
    ⟨fun _ _ => rfl, fun _ _ => (Nat.max_zero _).symm⟩
  exact h.valueAt_of_zero (fun _ => rfl) _ _ _

end Sessions

end Db

end Patchouli
