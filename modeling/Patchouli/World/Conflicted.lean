import Patchouli.Sqlite.Conflicted
import Patchouli.World.Retries

/-!
# Closing units of a running system

Whatever the engines do, a unit that is closing has a conflict, and keeps it until it is published
or expires. The commit of a mutation in a closing unit would publish the unit, without the mutation,
if it found no conflict: it always finds one.

## Main definitions

* `Db.JoinsPublishable` — a commit is about to publish a unit that another call closed

## Main results

* `closing_unit_conflicted` — the invariant, and the branch it rules out
-/

namespace Patchouli

open Db

variable {env : Environment} {w w' : World} {unit : String} {key : EntityKey}

/-- **Each event** leaves a unit closing only with a conflict. -/
theorem World.step_closingConflicted (hlaw : env.automerge.Lawful) (hreach : Reachable env w)
    (hold : ClosingConflicted w.db) (event : Event) : ClosingConflicted (w.step env event).db := by
  have hsound := hreach.sound hlaw
  have inv := hsound.inv
  have heffects := World.step_effects hlaw hsound event
  cases World.step_moved hsound event with
  | kept h =>
    exact hold.of_effects hlaw inv heffects fun id hclosing =>
      Or.inl ((Upkeeps.noneSettled (fun _ => False) h).isClosing not_false hclosing)
  | @committed i clock p prepared base next hevent hp hat hnone hbase h hrecord =>
    have hread := (ReachableWhen.informed hlaw hreach) i p hp
    simp only [Process.Informed, hat] at hread
    obtain ⟨w₁, snapshot, -, -, hprepare⟩ := hread
    obtain ⟨-, ⟨_, _, _, _, _, _, _, _, _, _, _, heq⟩, -⟩ := commitEntityInTransaction_spec hlaw
      (Upkeeps.keeps inv hbase).1.crdt (prepare_prepares hlaw hprepare).formed.genuine h
    obtain ⟨idempotency, hrecord⟩ := hrecord
    have hunits : (w.step env event).db.workUnits = base.workUnits := by rw [hrecord, heq]
    exact hold.of_effects hlaw inv heffects fun id hclosing => Or.inl
      (((Upkeeps.noneSettled (fun _ => False) hbase).trans (.of_eq hunits)).isClosing not_false
        hclosing)
  | @inUnit i clock p prepared selected hevent hp hat hselected h =>
    have hps := hsound.processes i p hp
    have hstage := hps.stage
    simp only [Process.StageSound, hat] at hstage
    obtain ⟨heads, hprepares⟩ := Process.Prepared.prepares hlaw hstage
    obtain ⟨-, hscope⟩ := Process.Prepares.scope_eq hprepares
    have hlive : ∀ outcome route, p.stage ≠ .answered outcome route := by simp [hat]
    exact h.closingConflicted hlaw inv hold hprepares.formed
      ((hps.workUnit hlive hselected).1.trans hscope.symm)
  | @published i clock p prepared resolutions selected hevent hp hat hselected h =>
    have hstage := (hsound.processes i p hp).stage
    simp only [Process.StageSound, hat] at hstage
    exact h.closingConflicted hlaw inv hold (Process.Resolves.wellFormed hstage.2)

theorem Reachable.closingConflicted (hlaw : env.automerge.Lawful) (h : Reachable env w) :
    ClosingConflicted w.db := by
  induction h with
  | start => exact fun _ ⟨_, hu, _⟩ => nomatch hu
  | step event hbefore _ ih => exact World.step_closingConflicted hlaw hbefore ih event

/-- A unit that was closing is closing, published or expired. -/
theorem Runs.closing_or_done (hlaw : env.automerge.Lawful) (h : Runs env w w')
    (hreach : Reachable env w) (hclosing : w.db.IsClosing unit) :
    w'.db.IsClosing unit ∨ w'.db.Committed unit ∨
      ∃ u ∈ w'.db.workUnits, u.identityJson = unit ∧ u.state = .expired := by
  obtain ⟨u, hu, rfl, hstate⟩ := hclosing
  obtain ⟨u', hu', hev⟩ := (Runs.extends hlaw h hreach).units u hu
  cases hstate' : u'.state with
  | closing => exact Or.inl ⟨u', hu', hev.identityJson, hstate'⟩
  | committed => exact Or.inr (Or.inl ⟨u', hu', hev.identityJson, hstate'⟩)
  | expired => exact Or.inr (Or.inr ⟨u', hu', hev.identityJson, hstate'⟩)
  | opened =>
    rcases hev.state with heq | hopen | ⟨-, hno⟩
    · rw [hstate', hstate] at heq
      cases heq
    · rw [hstate] at hopen
      cases hopen
    · exact absurd hstate' hno

/-- The branch of `commitEntityInWorkUnit` that finds a closing unit without conflicts, and would
publish it without the mutation of the call. -/
def Db.JoinsPublishable (db : Db) (clock : Clock) (commit : WorkUnitCommit) : Prop :=
  ∃ swept base, db.sweepExpiredWorkUnits clock.sweep = ⟨.ok (), swept⟩ ∧
    swept.ensureWorkUnit commit.workUnit = .ok (.closing, base) ∧
    base.publicationConflicts commit.workUnit.identityJson = .ok []

/-- Where closing units have a conflict, that branch is not taken. -/
theorem Db.ClosingConflicted.not_joinsPublishable {A : Automerge} {db : Db} {clock : Clock}
    {commit : WorkUnitCommit} (hlaw : A.Lawful) (inv : Inv A db) (h : ClosingConflicted db) :
    ¬ db.JoinsPublishable clock commit := by
  rintro ⟨swept, base, hsweep, hensure, hnone⟩
  have hswept : Swept clock.sweep db swept := by
    have hok : (db.sweepExpiredWorkUnits clock.sweep).outcome = .ok () := by rw [hsweep]
    have h := sweepExpiredWorkUnits_spec inv hok
    rwa [hsweep] at h
  have hupkeeps : Upkeeps Known.nothing db swept := Expiries.upkeeps _ hswept.expiries
  have hensured := ensureWorkUnit_ensured hensure
  obtain rfl : base = swept := by cases hensured; rfl
  have hthere := hensured.closing_unit
  have hwas := (Upkeeps.noneSettled (fun _ => False) hupkeeps).isClosing not_false hthere
  obtain ⟨key, hkey⟩ := h _ hwas
  exact (hupkeeps.effects.conflictedAt hlaw inv hwas hthere hkey).publicationConflicts_ne_nil
    (Upkeeps.keeps inv hupkeeps).1.staging hnone

/-- **A closing unit always has a conflict.** In every reachable state a closing unit has staged an
entity whose published heads are not those of its baseline; whatever happens, the conflict stays
until the unit is published or expires; so no commit in a unit publishes one that another call
closed. -/
theorem closing_unit_conflicted (hlaw : env.automerge.Lawful) (h : Reachable env w) :
    (∀ unit, w.db.IsClosing unit → ∃ key, w.db.ConflictedAt unit key) ∧
    (∀ w' unit key, Runs env w w' → w.db.IsClosing unit → w.db.ConflictedAt unit key →
      w'.db.IsClosing unit ∧ w'.db.ConflictedAt unit key ∨ w'.db.Committed unit ∨
        ∃ u ∈ w'.db.workUnits, u.identityJson = unit ∧ u.state = .expired) ∧
    ∀ clock commit, ¬ w.db.JoinsPublishable clock commit ∧
      (w.db.IsClosing commit.workUnit.identityJson →
        (commitEntityInWorkUnit w.db clock commit).outcome ≠ .ok .published) := by
  have inv := (h.sound hlaw).inv
  have hconflicted := h.closingConflicted hlaw
  refine ⟨hconflicted, fun w' unit key hruns hclosing hkey => ?_, fun clock commit =>
    ⟨hconflicted.not_joinsPublishable hlaw inv, fun hclosing hpublished => ?_⟩⟩
  · rcases Runs.closing_or_done hlaw hruns h hclosing with hstill | hdone
    · exact Or.inl ⟨hstill,
        (Runs.effects hlaw hruns h).conflictedAt hlaw inv hclosing hstill hkey⟩
    · exact Or.inr hdone
  · have hcases := commitEntityInWorkUnit_cases inv clock commit
    rw [hpublished] at hcases
    exact WorkUnitCommitted.closing_not_published hlaw inv hconflicted hclosing hcases

/-- The unit that lost its race is closing, and has a conflict. -/
theorem lostRace_conflicted : ∃ key, lostRace.db.ConflictedAt "unit" key :=
  (closing_unit_conflicted (show noteEnvironment.automerge.Lawful from noAutomerge_lawful)
    (World.after_reachable _ _)).1 "unit" (by decide)

end Patchouli
