import Patchouli.Sqlite.Lazy
import Patchouli.World.Origins

/-!
# Expiry in the runs of the engine

In every world a run can reach, a sweep right before a call changes neither what the call answers nor
what it leaves published, unless the call consults what overdue units have left behind. The three
keyed calls outside of the sweeping ones do so where such a unit has staged a record of their
identity: they answer with a conflict that nobody answers once somebody has swept.

## Main results

* `lazy_expiry_is_eager` — for every call, with the condition
* `Reachable.namesUnstaged` — the promise about names is kept by the engine
* `staged_record_outlives_its_unit` — a run that meets the condition
-/

namespace Patchouli

open Db

variable {env : Environment} {w : World} {α : Type}

/-- The engine commits under names that are not staged. -/
theorem Reachable.namesUnstaged (hlaw : env.automerge.Lawful) (hdraws : env.DrawsOnce)
    (h : Reachable env w) {i : ℕ} {p : Process} (hp : w.processes[i]? = some p)
    {prepared : Prepared} (hat : p.stage = .commit prepared) :
    NamesUnstaged prepared.commit w.db := by
  intro v hv row hrow _ hname
  have hwritten := h.written hlaw ⟨row, hrow, rfl, rfl⟩
  have hbrings : (p.brings env).version prepared.commit.key v := by
    unfold Process.brings
    rw [hat]
    exact ⟨rfl, hv⟩
  exact absurd hname.symm (hwritten.not_brought hlaw hdraws (h.sound hlaw)
    (.advance i ⟨0, 0, 0⟩) ⟨p, hp, hbrings⟩)

/-- **Lazy expiry is eager expiry.** A sweep right before a call changes neither its outcome nor the
published state it leaves, if the call does not consult what is overdue; and what the sweep leaves
staged belongs to units that are not. A keyed call that does consult it answers otherwise. -/
theorem lazy_expiry_is_eager (hlaw : env.automerge.Lawful) (hreach : Reachable env w)
    (clock : Clock) (op : Operation α) (hissued : op.IssuedAt clock.sweep)
    (hpromised : op.PromisedIn env.automerge w.db) :
    (¬ op.ConsultsOverdue env.search w.db clock →
      Reply.Alike (op.call env.search w.db clock)
        (op.call env.search (w.db.sweepExpiredWorkUnits clock.sweep).db clock)) ∧
    (op.ConsultsOverdue env.search w.db clock → ¬ op.Retrieves →
      ¬ Reply.Alike (op.call env.search w.db clock)
        (op.call env.search (w.db.sweepExpiredWorkUnits clock.sweep).db clock)) ∧
    (clock.sweep < 2 ^ 63 → ∀ unit,
      ((∃ r ∈ (w.db.sweepExpiredWorkUnits clock.sweep).db.versions, r.workUnitJson = some unit) ∨
        ∃ r ∈ (w.db.sweepExpiredWorkUnits clock.sweep).db.unitIdempotency,
          r.workUnitJson = unit) →
      ∃ u ∈ (w.db.sweepExpiredWorkUnits clock.sweep).db.workUnits,
        u.identityJson = unit ∧ u.Live ∧ clock.sweep < u.expiresAtUnixMs) := by
  have inv := (hreach.sound hlaw).inv
  refine ⟨Operation.alike hlaw inv hissued hpromised, Operation.not_alike inv hissued, ?_⟩
  intro hnow unit
  exact (sweepExpiredWorkUnits_spec inv (sweepExpiredWorkUnits_isOk inv hnow)).staged_current inv

/-- A creation of the note "n" in a unit, with a key of its own. -/
def createKeyedNote : Request :=
  let request := createNote .null (some "unit") false
  { request with
    selection := { request.selection with
      idempotencyKey := some "key", idempotency := .keyed ["key"] } }

/-- The unit has staged the note and the record of its key, until 1005. -/
def keyedNote : World :=
  World.after noteEnvironment [.arrive createKeyedNote (readingsAt 5), .advance 0 (clockAt 5),
    .advance 0 (clockAt 5), .advance 0 (clockAt 5)]

/-- The key is looked up. -/
def lookUpKey (now : ℕ) : Operation IdempotencyReadOutcome :=
  .readIdempotency "scope" ⟨[.authority], [], [], none⟩ "key" createKeyedNote.mutation now

/-- The deadline of the unit has passed, and its record is a conflict still; a sweep right before
the call, and there is none. -/
theorem staged_record_outlives_its_unit :
    Reachable noteEnvironment keyedNote ∧
    (∀ u ∈ keyedNote.db.workUnits, u.Overdue 2000) ∧
    (lookUpKey 2000).IssuedAt (clockAt 2000).sweep ∧
    ((lookUpKey 2000).call noteEnvironment.search keyedNote.db (clockAt 2000)).outcome =
      .ok .conflict ∧
    ((lookUpKey 2000).call noteEnvironment.search
      (keyedNote.db.sweepExpiredWorkUnits 2000).db (clockAt 2000)).outcome = .ok .missing := by
  refine ⟨World.after_reachable _ _, ?_, rfl, rfl, rfl⟩
  decide

/-- Before the deadline a sweep changes nothing. -/
theorem keyed_lookup_in_time :
    Reply.Alike ((lookUpKey 1000).call noteEnvironment.search keyedNote.db (clockAt 1000))
      ((lookUpKey 1000).call noteEnvironment.search
        (keyedNote.db.sweepExpiredWorkUnits (clockAt 1000).sweep).db (clockAt 1000)) :=
  (lazy_expiry_is_eager (show noteEnvironment.automerge.Lawful from noAutomerge_lawful)
    (World.after_reachable _ _) (clockAt 1000) (lookUpKey 1000) rfl trivial).1 fun hconsults =>
      absurd hconsults.1 (by decide)

end Patchouli
