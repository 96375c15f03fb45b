import Patchouli.Sqlite.Operation

/-!
# One record for an identity

Published and staged idempotency records lie in two tables with a primary key each, and nothing but
the code keeps an identity out of both. Every path that writes a record looks into both tables
first, so the identities of the two tables together are pairwise different in every state. Then the
records a unit staged can always be moved: the insert that publishes them meets no record of the
same identity, whoever else published in the meantime.

Nothing is assumed about the operations. In particular clocks may disagree, so a staged record may
have expired for one call and not for the next.

## Main definitions

* `Db.recordIdentities` — the identities of both tables
* `Db.RecordsInv` — each belongs to one record

## Main results

* `Db.RecordsInv.publishUnitIdempotency` — staged records can be published
* `records_kept` — every write statement keeps it so, and none fails with a duplicate
* `idempotency_records_disjoint` — in every state, whatever the operations
-/

namespace Patchouli

namespace Db

/-- The identities of all records, published and staged. -/
def recordIdentities (db : Db) : List String :=
  db.idempotency.map (·.identityJson) ++ db.unitIdempotency.map (·.record.identityJson)

/-- An identity is held by one record, and a staged record can be stored as a published one. -/
structure RecordsInv (db : Db) : Prop where
  once : db.recordIdentities.Nodup
  bound : ∀ staged ∈ db.unitIdempotency, staged.record.expiresAtUnixMs < 2 ^ 63

/-- Both tables of records are the same. -/
def SameRecords (old new : Db) : Prop :=
  new.idempotency = old.idempotency ∧ new.unitIdempotency = old.unitIdempotency

namespace RecordsInv

variable {db old new : Db}

theorem empty : RecordsInv Db.empty := ⟨List.nodup_nil, fun _ h => nomatch h⟩

theorem of_same (inv : RecordsInv old) (h : SameRecords old new) : RecordsInv new := by
  obtain ⟨hrecords, hstaged⟩ := h
  exact ⟨by rw [recordIdentities, hrecords, hstaged]; exact inv.once,
    by rw [hstaged]; exact inv.bound⟩

/-- Records are lost. -/
theorem of_sublist (inv : RecordsInv old) (hrecords : new.idempotency.Sublist old.idempotency)
    (hstaged : new.unitIdempotency.Sublist old.unitIdempotency) : RecordsInv new :=
  ⟨inv.once.sublist ((hrecords.map _).append (hstaged.map _)),
    fun staged h => inv.bound staged (hstaged.subset h)⟩

theorem not_mem {identity : String} (hnone : db.idempotency? identity = none)
    (hfree : db.unitIdempotency? identity = none) : identity ∉ db.recordIdentities := by
  rw [recordIdentities, List.mem_append, List.mem_map, List.mem_map]
  rintro (⟨record, hrecord, rfl⟩ | ⟨staged, hstaged, rfl⟩)
  · exact absurd (List.find?_eq_none.mp hnone record hrecord) (by simp)
  · exact absurd (List.find?_eq_none.mp hfree staged hstaged) (by simp)

/-- A record is published. -/
theorem insertIdempotency (inv : RecordsInv db) {record : IdempotencyRecord}
    (hnone : db.idempotency? record.identityJson = none)
    (hfree : db.unitIdempotency? record.identityJson = none) :
    RecordsInv { db with idempotency := db.idempotency ++ [record] } := by
  refine ⟨?_, inv.bound⟩
  have hperm : (recordIdentities { db with idempotency := db.idempotency ++ [record] }).Perm
      (record.identityJson :: db.recordIdentities) := by
    simp only [recordIdentities, List.map_append, List.map_cons, List.map_nil, List.append_assoc]
    exact List.perm_middle
  rw [hperm.nodup_iff, List.nodup_cons]
  exact ⟨not_mem hnone hfree, inv.once⟩

/-- A record is staged. -/
theorem insertWorkUnitIdempotency (inv : RecordsInv db) {unit : String}
    {record : IdempotencyRecord} (hbound : record.expiresAtUnixMs < 2 ^ 63)
    (hnone : db.idempotency? record.identityJson = none)
    (hfree : db.unitIdempotency? record.identityJson = none) :
    RecordsInv { db with unitIdempotency := db.unitIdempotency ++ [⟨unit, record⟩] } := by
  constructor
  · rw [recordIdentities, List.map_append, ← List.append_assoc, List.map_cons, List.map_nil,
      List.nodup_append']
    refine ⟨inv.once, List.nodup_singleton _, fun identity hmem hnew => ?_⟩
    exact not_mem hnone hfree (List.mem_singleton.mp hnew ▸ hmem)
  · intro staged hstaged
    rcases List.mem_append.mp hstaged with hold | hnew
    · exact inv.bound staged hold
    · rw [List.mem_singleton.mp hnew]
      exact hbound

/-- Records under new identities are inserted one after the other. -/
theorem foldlM_insertIdempotency {records : List IdempotencyRecord} {db : Db}
    (hbound : ∀ record ∈ records, record.expiresAtUnixMs < 2 ^ 63)
    (hnodup : (db.idempotency.map (·.identityJson) ++
      records.map (·.identityJson)).Nodup) :
    records.foldlM Db.insertIdempotency db =
      .ok { db with idempotency := db.idempotency ++ records } := by
  induction records generalizing db with
  | nil => simp [Except.pure_eq_ok]
  | cons record records ih =>
    have hinsert : db.insertIdempotency record =
        .ok { db with idempotency := db.idempotency ++ [record] } := by
      have hbind : bindUnsigned record.expiresAtUnixMs = .ok record.expiresAtUnixMs :=
        bindUnsigned_eq_ok.mpr ⟨hbound record (by simp), rfl⟩
      have hnew : ∀ row ∈ db.idempotency, row.identityJson ≠ record.identityJson := by
        intro row hrow heq
        exact (List.nodup_append'.mp hnodup).2.2 (List.mem_map_of_mem hrow) (by simp [heq])
      rw [Db.insertIdempotency, hbind]
      simp only [bind, Except.bind, require, if_pos hnew]
      rfl
    have hrest := @ih { db with idempotency := db.idempotency ++ [record] }
      (fun r hr => hbound r (List.mem_cons_of_mem _ hr)) (by simpa using hnodup)
    refine Except.foldlM_cons_eq_ok.mpr ⟨_, hinsert, ?_⟩
    rw [hrest]
    simp

/-- **The staged records of a unit can be published**, and then still no identity is held twice. -/
theorem publishUnitIdempotency (inv : RecordsInv db) (unit : String) (recordedAt : ℕ) :
    ∃ new, db.publishUnitIdempotency unit recordedAt = .ok new ∧ RecordsInv new := by
  let moved := (db.unitIdempotency.filter fun row =>
    row.workUnitJson = unit ∧ recordedAt < row.record.expiresAtUnixMs).map (·.record)
  have hkept : ((db.unitIdempotency.filter fun row =>
        row.workUnitJson = unit ∧ recordedAt < row.record.expiresAtUnixMs) ++
      db.unitIdempotency.filter (·.workUnitJson ≠ unit)).Subperm db.unitIdempotency := by
    have hrest : (db.unitIdempotency.filter (·.workUnitJson ≠ unit)).Sublist
        (db.unitIdempotency.filter fun row => ! decide (row.workUnitJson = unit ∧
          recordedAt < row.record.expiresAtUnixMs)) := by
      refine List.monotone_filter_right _ fun row hrow => ?_
      simp only [ne_eq, decide_not, Bool.not_eq_true', decide_eq_false_iff_not] at hrow ⊢
      exact fun h => hrow h.1
    exact ((List.Sublist.refl _).append hrest).subperm.trans
      (List.filter_append_perm _ _).subperm
  obtain ⟨kept, hperm, hsub⟩ := hkept
  have hnodup : (db.idempotency.map (·.identityJson) ++ (moved.map (·.identityJson) ++
      (db.unitIdempotency.filter (·.workUnitJson ≠ unit)).map (·.record.identityJson))).Nodup := by
    have hkeeps := inv.once.sublist ((List.Sublist.refl _).append (hsub.map _))
    have hnodup := ((List.Perm.refl _).append (hperm.map _)).nodup_iff.mp hkeeps
    have hmoved : moved.map (·.identityJson) = (db.unitIdempotency.filter fun row =>
        row.workUnitJson = unit ∧ recordedAt < row.record.expiresAtUnixMs).map
          (·.record.identityJson) := List.map_map
    rw [hmoved]
    rwa [List.map_append] at hnodup
  rw [← List.append_assoc] at hnodup
  have hbound : ∀ record ∈ moved, record.expiresAtUnixMs < 2 ^ 63 := by
    intro record hrecord
    obtain ⟨staged, hstaged, rfl⟩ := List.mem_map.mp hrecord
    exact inv.bound staged (List.mem_filter.mp hstaged).1
  have hinsert := foldlM_insertIdempotency hbound (List.nodup_append'.mp hnodup).1
  refine ⟨deleteUnitIdempotency { db with idempotency := db.idempotency ++ moved } unit, ?_, ?_, ?_⟩
  · rw [Db.publishUnitIdempotency, hinsert]
    rfl
  · rw [recordIdentities, deleteUnitIdempotency]
    dsimp only
    rwa [List.map_append]
  · exact fun staged hstaged => inv.bound staged (List.mem_filter.mp hstaged).1

end RecordsInv

end Db

/-! ### The write statements -/

section Statements

open Db

variable {db : Db}

/-- No error but the violation of that key, and both tables as they were. -/
private abbrev Spares (db : Db) (x : Except ProviderError Db) : Prop :=
  x.Meets (fun error => ¬ error.IsDuplicate) (SameRecords db)

private theorem require_spares {holds : Prop} [Decidable holds] {detail : String}
    (h : ¬ (databaseError detail).IsDuplicate) :
    (require holds detail).Meets (fun error => ¬ error.IsDuplicate) fun _ => True := by
  unfold require
  split
  · trivial
  · exact h

theorem insertEntityVersions_spares (db : Db) (key : EntityKey)
    (versions : List StoredEntityVersion) (unit : Option String) (recordedAt : ℕ) :
    Spares db (db.insertEntityVersions key versions unit recordedAt) := by
  have hparent : ∀ (new : Db) hash parent, SameRecords db new →
      Spares db (new.insertCrdtParent hash parent) := by
    intro new hash parent hsame
    unfold insertCrdtParent
    split
    · exact hsame
    · exact (require_spares (by decide)).bind fun _ _ => hsame
  have hhead : ∀ (new : Db) row, SameRecords db new → Spares db (new.insertCrdtHead row) :=
    fun new row hsame => (require_spares (by decide)).bind fun _ _ =>
      (require_spares (by decide)).bind fun _ _ =>
        (require_spares (by decide)).bind fun _ _ => hsame
  have hchange : ∀ (changes : List StoredCrdtChange) (new : Db), SameRecords db new →
      SameRecords db (changes.foldl (fun db change =>
        db.insertCrdtChange change.hash change.bytes) new) := by
    intro changes
    induction changes with
    | nil => exact fun _ hsame => hsame
    | cons change changes ih =>
      intro new hsame
      refine ih _ (show SameRecords db (new.insertCrdtChange change.hash change.bytes) from ?_)
      unfold insertCrdtChange
      split <;> exact hsame
  have hfield : ∀ version (new : Db) field, SameRecords db new →
      Spares db (insertCrdtField key version new field) := fun version new field hsame =>
    (Except.Meets.foldlM (hchange _ _ hsame) fun new hsame change _ =>
      Except.Meets.foldlM hsame fun new hsame parent _ => hparent new _ _ hsame).bind
        fun new hsame => Except.Meets.foldlM hsame fun new hsame head _ => hhead new _ hsame
  refine Except.Meets.foldlM ⟨rfl, rfl⟩ fun new hsame version _ => ?_
  refine Except.Meets.bind (P := SameRecords db) ?_ fun new hsame =>
    Except.Meets.foldlM hsame fun new hsame field _ => hfield _ new field hsame
  exact (require_spares (by decide)).bind fun _ _ => (require_spares (by decide)).bind fun _ _ =>
    (require_spares (by decide)).bind fun _ _ => (require_spares (by decide)).bind fun _ _ => hsame

theorem uniqueHeads_meets (heads : List String) :
    (uniqueHeads heads).Meets (fun error => ¬ error.IsDuplicate) fun _ => True := by
  unfold uniqueHeads
  split
  · exact show ¬ (ProviderError.new _).IsDuplicate by decide
  · split
    · exact show ¬ (ProviderError.new _).IsDuplicate by decide
    · trivial

theorem bindUnsigned_meets (value : ℕ) :
    (bindUnsigned value).Meets (fun error => ¬ error.IsDuplicate) fun _ => True := by
  unfold bindUnsigned
  split
  · trivial
  · exact show ¬ (databaseError _).IsDuplicate by decide

/-- What a failed publication reports does not read like an error of the database. -/
theorem publicationFailed_ne (error : ProviderError) :
    (publicationFailed error).message ≠ duplicateIdempotency.message := by
  intro heq
  have htake := congrArg (fun message : String => message.toList.take 8) heq
  simp only [publicationFailed, ProviderError.new, String.toList_append] at htake
  rw [List.take_append_of_le_length (by decide)] at htake
  exact absurd htake (by decide)

/-- **Every write statement keeps identities apart, and none meets a duplicate.** -/
theorem records_kept :
    KeptByStatements (fun _ _ => True) (fun error => ¬ error.IsDuplicate) RecordsInv where
  ordinary _ h := h
  publication error h := by
    rintro (heq | heq)
    · exact publicationFailed_ne error heq
    · exact h (Or.inl ((String.append_right_inj _).mp heq))
  insertEntityVersions db inv key versions unit recordedAt _ :=
    (insertEntityVersions_spares db key versions unit recordedAt).mono fun _ => inv.of_same
  replacePublishedHeads db inv key heads :=
    (uniqueHeads_meets heads).bind fun _ _ => (require_spares (by decide)).bind fun _ _ =>
      inv.of_same ⟨rfl, rfl⟩
  replaceWorkUnitHeads db inv unit key heads :=
    (uniqueHeads_meets heads).bind fun _ _ => (require_spares (by decide)).bind fun _ _ =>
      inv.of_same ⟨rfl, rfl⟩
  insertChange db inv _ _ _ _ _ _ :=
    (require_spares (by decide)).bind fun _ _ => (require_spares (by decide)).bind fun _ _ =>
      inv.of_same ⟨rfl, rfl⟩
  advanceWriteSessions db inv _ _ _ := inv.of_same ⟨rfl, rfl⟩
  advanceReadSessions db inv _ _ _ := inv.of_same ⟨rfl, rfl⟩
  publishEntityVersions db inv _ _ _ := inv.of_same ⟨rfl, rfl⟩
  publishWorkUnitVersions db inv _ _ _ := inv.of_same ⟨rfl, rfl⟩
  openWorkUnit db inv _ _ _ _ := inv.of_same ⟨rfl, rfl⟩
  captureWorkUnitEntity db inv unit key := by
    unfold captureWorkUnitEntity
    split
    · exact inv
    · split
      · exact show ¬ (databaseError _).IsDuplicate by decide
      · exact inv.of_same ⟨rfl, rfl⟩
  recordStagedMutation db inv _ := inv.of_same ⟨rfl, rfl⟩
  markClosing db inv _ := inv.of_same ⟨rfl, rfl⟩
  markCommitted db inv _ _ := inv.of_same ⟨rfl, rfl⟩
  expireWorkUnit db inv identity now := by
    refine Except.Meets.bind (P := fun _ => True) ?_ fun now _ => ?_
    · unfold sqliteTime
      split
      · trivial
      · exact show ¬ (ProviderError.new _).IsDuplicate by decide
    · refine Except.Meets.bind (P := SameRecords db)
        ((require_spares (by decide)).bind fun _ _ => ⟨rfl, rfl⟩) fun new hsame => ?_
      exact (inv.of_same hsame).of_sublist (List.Sublist.refl _) List.filter_sublist
  publishUnitIdempotency db inv unit recordedAt := by
    obtain ⟨new, hnew, inv'⟩ := inv.publishUnitIdempotency unit recordedAt
    rw [hnew]
    exact inv'
  deleteOverdueIdempotency db inv now := by
    exact (bindUnsigned_meets now).bind fun _ _ =>
      inv.of_sublist List.filter_sublist List.filter_sublist
  insertIdempotency db inv record hnone hfree := by
    have hnew : ∀ row ∈ db.idempotency, row.identityJson ≠ record.identityJson :=
      fun row hrow => by simpa using List.find?_eq_none.mp hnone row hrow
    refine (bindUnsigned_meets record.expiresAtUnixMs).bind fun _ _ => ?_
    simp only [require, if_pos hnew]
    exact inv.insertIdempotency hnone hfree
  insertWorkUnitIdempotency db inv unit record hnone hfree := by
    refine (bindUnsigned_meets record.expiresAtUnixMs).bind_any fun _ hbound => ?_
    exact (require_spares (by decide)).bind fun _ _ => (require_spares (by decide)).bind fun _ _ =>
      inv.insertWorkUnitIdempotency (bindUnsigned_eq_ok.mp hbound).1 hnone hfree
  recordRetention db inv _ := inv.of_same ⟨rfl, rfl⟩
  deleteOverdueChanges db inv _ := inv.of_same ⟨rfl, rfl⟩

end Statements

/-! ### Every state -/

/-- **An idempotency identity is held by one record**, in every state any sequence of operations
leads to. The records a unit staged can be published in each of them, and no operation fails because
somebody holds one of their identities already. -/
theorem idempotency_records_disjoint {search : Search} {db : Db}
    (h : Operation.Reaches search (fun _ _ => True) db) :
    db.recordIdentities.Nodup ∧
      (∀ unit recordedAt, ∃ new, db.publishUnitIdempotency unit recordedAt = .ok new) ∧
      ∀ (clock : Clock) {α : Type} (op : Operation α) (error : ProviderError),
        (op.call search db clock).outcome = .error error → ¬ error.IsDuplicate := by
  have inv := h.kept records_kept Db.RecordsInv.empty
  refine ⟨inv.once, fun unit recordedAt => ?_, fun clock _ op error herror => ?_⟩
  · obtain ⟨new, hnew, -⟩ := inv.publishUnitIdempotency unit recordedAt
    exact ⟨new, hnew⟩
  · exact (op.keeps records_kept inv search clock op.carries_anything).1 error herror

/-- A search that finds nothing. -/
def noSearch : Search where
  contains _ _ := false
  indexed _ _ := false
  score _ _ _ := 0
  compareNumbers _ _ := none

/-- The creation of a note. -/
def firstNote : EntityCommit where
  key := ⟨"scope", "note", "n"⟩
  expectedHeads := []
  newVersions := [{ version := "v", state := .active, valueJson := some .null, crdtFields := [] }]
  headVersions := ["v"]
  changeKind := .created
  causalToken := "v"
  eventMetaJson := []
  writeSessionKeys := []
  recordedAtUnixMs := 5
  deadlineUnixMs := none

/-- The record of the creation. -/
def firstRecord : IdempotencyRecord where
  identityJson := "client/1"
  requestJson := .create "note" (some "n") .null
  resultJson := ⟨[], .active ⟨"note", "n"⟩ "v" .null⟩
  expiresAtUnixMs := 100

/-- One record, and its identity. -/
theorem one_record_is_held_once :
    (Operation.call noSearch Db.empty ⟨5, 5, 5⟩
      (.commitEntityIdempotent firstNote firstRecord 5)).db.recordIdentities = ["client/1"] ∧
    (Operation.call noSearch Db.empty ⟨5, 5, 5⟩
      (.commitEntityIdempotent firstNote firstRecord 5)).db.recordIdentities.Nodup :=
  ⟨by decide, (idempotency_records_disjoint (Operation.Reaches.call (.empty) ⟨5, 5, 5⟩
    (.commitEntityIdempotent firstNote firstRecord 5) (Operation.carries_anything _))).1⟩

end Patchouli
