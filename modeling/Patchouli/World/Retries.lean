import Patchouli.World.ChangeLog

/-!
# Closing a unit again

A unit whose close met a conflict, and whose closer did not publish it, is left `closing`. Before a
mutation commits anything it reads its entity, and a unit that is not open is not read: a request
for such a unit never comes to the branch of the commit that would publish the unit, whether it is
the retry of the closer or not. The unit is published by a process that was already past its read,
or by nobody.

## Main definitions

* `Request.Closes`, `World.alone` — a close-marked request, and what comes of it with nobody else
  around
* `Db.Stranded` — a unit that is closing or has expired

## Main results

* `World.alone_stranded` — a request for a stranded unit leaves it so, and is refused
* `closing_unit_stays_unpublished` — the same of the requests that carry its close marker
* `retried_close_is_refused` — the retry of a close that lost its race
-/

namespace Patchouli

open Db Relation

/-- The request carries the close marker of a unit. -/
def Request.Closes (request : Request) (unit : String) : Prop :=
  request.selection.publicationKey = some unit ∧
    match request.selection.publication with
    | .immediate => False
    | .batch _ closeField closeEquals _ =>
      request.selection.fields.lookup closeField = some closeEquals

/-- What comes of a request when nobody else does anything: it arrives, and its process steps at
each of some clocks. -/
def World.alone (env : Environment) (w : World) (request : Request) (readings : Readings)
    (clocks : List Clock) : World :=
  clocks.foldl (fun w' clock => w'.step env (.advance w.processes.length clock))
    (w.step env (.arrive request readings))

/-! ### Stranded units -/

section Stranded

variable {A : Automerge} {K : Known} {old new : Db} {unit : String} {clock : Clock}

/-- The unit was closed and not published, or has expired. -/
def Db.Stranded (db : Db) (unit : String) : Prop :=
  ∃ u ∈ db.workUnits, u.identityJson = unit ∧ (u.state = .closing ∨ u.state = .expired)

instance (db : Db) (unit : String) : Decidable (db.Stranded unit) :=
  inferInstanceAs (Decidable (∃ u ∈ db.workUnits, u.identityJson = unit ∧
    (u.state = .closing ∨ u.state = .expired)))

/-- The row of a stranded unit is not another one's. -/
theorem Db.Stranded.state (h : new.Stranded unit) (inv : StagingInv new) {u : WorkUnitRow}
    (hu : u ∈ new.workUnits) (hid : u.identityJson = unit) :
    u.state = .closing ∨ u.state = .expired := by
  obtain ⟨v, hv, hvid, hstate⟩ := h
  rwa [inv.unit_eq hu hv (hid.trans hvid.symm)]

theorem Db.Stranded.not_committed (h : new.Stranded unit) (inv : StagingInv new) :
    ¬ new.Committed unit := by
  rintro ⟨u, hu, hid, hcommitted⟩
  rcases h.state inv hu hid with hstate | hstate <;> rw [hcommitted] at hstate <;> cases hstate

/-- Nothing but a publication gets a unit out of it. -/
theorem Upkeeps.stranded (inv : Inv A old) (h : Upkeeps K old new) (hold : old.Stranded unit) :
    new.Stranded unit := by
  obtain ⟨u, hu, hid, hstate⟩ := hold
  obtain ⟨inv', hext⟩ := h.keeps inv
  obtain ⟨u', hu', hev⟩ := hext.units u hu
  have hid' : u'.identityJson = unit := hev.identityJson.trans hid
  refine ⟨u', hu', hid', ?_⟩
  have hopened : u'.state ≠ .opened := by
    rcases hev.state with heq | hopen | ⟨-, hne⟩
    · rw [heq]
      rcases hstate with h | h <;> simp [h]
    · rcases hstate with h | h <;> rw [hopen] at h <;> cases h
    · exact hne
  have hcommitted : u'.state ≠ .committed := by
    intro hcommitted
    have hsame := inv.staging.unit_eq
      (h.noneSettled (fun _ => False) u' hu' (Or.inr hcommitted) not_false) hu hev.identityJson
    rw [hsame] at hcommitted
    rcases hstate with h | h <;> rw [hcommitted] at h <;> cases h
  cases hnow : u'.state <;> simp_all

/-- A stranded unit is not read. -/
theorem Db.Stranded.not_read (h : old.Stranded unit) (inv : Inv A old) {workUnit : WorkUnit}
    (hid : workUnit.identityJson = unit) {key : EntityKey} {consistency : ReadConsistency}
    {value : Option EntitySnapshot} {observation : ReadObservation} :
    (readEntityInWorkUnit old clock workUnit key consistency).outcome ≠
      .ok (.opened (.read value observation)) := by
  intro hread
  obtain ⟨swept, base, captured, row, hreads, -⟩ := readEntityInWorkUnit_served inv hread
  obtain ⟨hbase, inv', hrow, hrowId, -, hopen⟩ :=
    hreads.base (K := Known.anything) inv trivial
  rcases (Upkeeps.stranded inv hbase h).state inv'.staging hrow (hrowId.trans hid) with
    hstate | hstate <;> rw [hopen] at hstate <;> cases hstate

end Stranded

/-! ### The request -/

variable {env : Environment} {w : World} {unit : String} {request : Request}

namespace Process

variable {i : ℕ} {p : Process} {clock : Clock}

/-- The process has not come past the read of the unit. -/
def Waits (unit : String) (p : Process) : Prop :=
  match p.stage with
  | .identify _ | .read =>
    ∃ selected, p.admitted.workUnit = some selected ∧ selected.workUnit.identityJson = unit
  | .answered _ .refused | .answered _ .replayed => True
  | _ => False

theorem refuse_waits (error : BackendError) : (p.refuse error).Waits unit := trivial

theorem beginRead_waits {selected : SelectedWorkUnit} (hselected : p.admitted.workUnit = some selected)
    (hid : selected.workUnit.identityJson = unit) : (p.beginRead env).Waits unit := by
  unfold beginRead
  split
  · exact ⟨selected, hselected, hid⟩
  · trivial

/-- A step of such a process ends before the read or is the last one. -/
theorem Waits.step (hwaits : p.Waits unit) (inv : Inv env.automerge w.db)
    (hstranded : w.db.Stranded unit) : (p.step env i clock w.db).1.Waits unit := by
  unfold Waits at hwaits
  split at hwaits
  · rename_i identity hat
    obtain ⟨selected, hselected, hid⟩ := hwaits
    simp only [Process.step, hat, identified]
    split
    · trivial
    · exact beginRead_waits hselected hid
    · trivial
    · trivial
    · trivial
  · rename_i hat
    obtain ⟨selected, hselected, hid⟩ := hwaits
    simp only [Process.step, hat, hselected, readBack]
    split
    · trivial
    · rename_i snapshot hvalue
      exfalso
      generalize hread : (readEntityInWorkUnit w.db clock selected.workUnit (p.key env i)
        p.admitted.consistency).outcome = outcome at hvalue
      cases outcome with
      | error error => cases hvalue
      | ok outcome =>
        cases outcome with
        | opened read =>
          cases read with
          | read value observation => exact hstranded.not_read inv hid hread
          | unavailable => cases hvalue
        | _ => cases hvalue
  · rename_i hat
    simp only [Process.step, hat, Waits]
  · rename_i hat
    simp only [Process.step, hat, Waits]
  · exact absurd hwaits not_false

end Process

theorem Request.arrive_waits (hkey : request.selection.publicationKey = some unit)
    (hbatch : request.selection.publication ≠ .immediate) (readings : Readings) :
    (request.arrive env readings).Waits unit := by
  unfold Request.arrive
  dsimp only
  split
  · exact Process.refuse_waits _
  · rename_i admitted hadmitted
    obtain ⟨hunit, -, -⟩ := admitRequest_eq_ok hadmitted
    obtain ⟨selected, hselected⟩ : ∃ selected, admitted.workUnit = some selected := by
      cases hnone : admitted.workUnit with
      | some selected => exact ⟨selected, rfl⟩
      | none =>
        rw [hnone, selectedWorkUnit, hkey] at hunit
        split at hunit
        · exact absurd ‹_› hbatch
        · dsimp only at hunit
          split at hunit <;> cases hunit
    have hid : selected.workUnit.identityJson = unit := by
      rw [hselected] at hunit
      have hsame := (selectedWorkUnit_some hunit).1
      rw [hkey, Option.some.injEq] at hsame
      exact hsame.symm
    split
    · exact ⟨selected, hselected, hid⟩
    · exact Process.beginRead_waits hselected hid

/-! ### Alone -/

/-- What a step of a waiting process leaves. -/
theorem World.step_stranded (hsound : w.Sound env) {i : ℕ} {p : Process}
    (hp : w.processes[i]? = some p) (hwaits : p.Waits unit) (hstranded : w.db.Stranded unit)
    (clock : Clock) :
    Quiet w.db (w.step env (.advance i clock)).db ∧
      (w.step env (.advance i clock)).db.Stranded unit ∧
      ∃ p', (w.step env (.advance i clock)).processes[i]? = some p' ∧ p'.Waits unit := by
  have hkept : Upkeeps (w.brings env (.advance i clock)) w.db (w.step env (.advance i clock)).db := by
    cases World.step_moved hsound (.advance i clock) with
    | kept h => exact h
    | committed hevent hp' hat _ _ _ _ =>
      cases hevent
      rw [hp, Option.some.injEq] at hp'
      subst hp'
      simp only [Process.Waits, hat] at hwaits
    | inUnit hevent hp' hat _ _ =>
      cases hevent
      rw [hp, Option.some.injEq] at hp'
      subst hp'
      simp only [Process.Waits, hat] at hwaits
    | published hevent hp' hat _ _ =>
      cases hevent
      rw [hp, Option.some.injEq] at hp'
      subst hp'
      simp only [Process.Waits, hat] at hwaits
  have hprunes : ¬ (Event.advance i clock).Prunes := not_false
  refine ⟨hkept.quiet hsound.inv (World.brings_retention hprunes),
    hkept.stranded hsound.inv hstranded, ?_⟩
  obtain ⟨hi, -⟩ := List.getElem?_eq_some_iff.mp hp
  refine ⟨(p.step env i clock w.db).1, ?_, hwaits.step hsound.inv hstranded⟩
  simp only [World.step, hp, List.getElem?_set_self hi]

/-- **A request for a stranded unit** publishes nothing, leaves the unit stranded, and does not get
past its read. -/
theorem World.alone_stranded (hlaw : env.automerge.Lawful) (hreach : Reachable env w)
    (hstranded : w.db.Stranded unit) (hkey : request.selection.publicationKey = some unit)
    (hbatch : request.selection.publication ≠ .immediate) (readings : Readings)
    (clocks : List Clock) :
    Reachable env (w.alone env request readings clocks) ∧
      Quiet w.db (w.alone env request readings clocks).db ∧
      (w.alone env request readings clocks).db.Stranded unit ∧
      ∀ p, (w.alone env request readings clocks).processes[w.processes.length]? = some p →
        p.Waits unit := by
  induction clocks using List.reverseRecOn with
  | nil =>
    simp only [World.alone, List.foldl_nil]
    refine ⟨.step _ hreach trivial, ?_⟩
    simp only [World.step]
    split
    · refine ⟨.refl _, hstranded, fun p hp => ?_⟩
      rw [List.getElem?_concat_length, Option.some.injEq] at hp
      rw [← hp]
      exact Request.arrive_waits hkey hbatch readings
    · refine ⟨.refl _, hstranded, fun p hp => ?_⟩
      simp at hp
  | append_singleton clocks clock ih =>
    obtain ⟨hreach', hquiet, hstranded', hwaits⟩ := ih
    have hlast : w.alone env request readings (clocks ++ [clock]) =
        (w.alone env request readings clocks).step env (.advance w.processes.length clock) := by
      simp only [World.alone, List.foldl_append, List.foldl_cons, List.foldl_nil]
    rw [hlast]
    refine ⟨.step _ hreach' trivial, ?_⟩
    cases hp : (w.alone env request readings clocks).processes[w.processes.length]? with
    | none =>
      simp only [World.step, hp]
      exact ⟨hquiet, hstranded', fun p h => by simp at h⟩
    | some p =>
      obtain ⟨hstep, hstranded'', p', hp', hwaits'⟩ :=
        World.step_stranded (hreach'.sound hlaw) hp (hwaits p hp) hstranded' clock
      refine ⟨hquiet.trans hstep, hstranded'', fun q hq => ?_⟩
      rw [hp', Option.some.injEq] at hq
      rwa [← hq]

/-- **A close-marked request for a closing unit** does not publish the unit, nor anything the unit
staged, and is not accepted. -/
theorem closing_unit_stays_unpublished (hlaw : env.automerge.Lawful) (hreach : Reachable env w)
    (hclosing : ∃ u ∈ w.db.workUnits, u.identityJson = unit ∧ u.state = .closing)
    (hcloses : request.Closes unit) (readings : Readings) (clocks : List Clock) :
    ¬ (w.alone env request readings clocks).db.Committed unit ∧
      (∀ key version, w.db.StagedBy unit key version →
        ¬ (w.alone env request readings clocks).db.IsPublished key version) ∧
      ∀ p, (w.alone env request readings clocks).processes[w.processes.length]? = some p →
        ∀ outcome route, p.stage = .answered outcome route → route = .refused ∨ route = .replayed := by
  have hbatch : request.selection.publication ≠ .immediate := by
    intro himmediate
    have hmarker := hcloses.2
    rw [himmediate] at hmarker
    exact hmarker
  obtain ⟨u, hu, hid, hstate⟩ := hclosing
  obtain ⟨hreach', hquiet, hstranded, hwaits⟩ := World.alone_stranded hlaw hreach
    ⟨u, hu, hid, Or.inl hstate⟩ hcloses.1 hbatch readings clocks
  refine ⟨hstranded.not_committed (hreach'.sound hlaw).inv.staging, ?_, ?_⟩
  · rintro key version ⟨r, hr, hunit, hkey, hversion⟩ hpublished
    obtain ⟨r', hr', hkey', hversion', hnone⟩ := (hquiet.isPublished_iff key version).mp hpublished
    have hsame := (hreach.sound hlaw).inv.staging.versionKeys.eq hr hr' (hkey.trans hkey'.symm)
      (hversion.trans hversion'.symm)
    rw [hsame, hnone] at hunit
    cases hunit
  · intro p hp outcome route hat
    have hstage := hwaits p hp
    unfold Process.Waits at hstage
    rw [hat] at hstage
    cases route with
    | refused => exact Or.inl rfl
    | replayed => exact Or.inr rfl
    | sent prepared resolutions => exact absurd hstage not_false

/-- The creation of the note `m`, which closes the unit. -/
def closeWithNote : Request :=
  noteRequest (.create "note" (some "m") .null) (some "unit") true []

/-- A unit updated the note `n` and was closed by the creation of the note `m`; the note `n` was
updated by others before the close and again before its publication. -/
def lostRace : World :=
  World.after noteEnvironment [
    .arrive (createNote .null none false) (readingsAt 5), .advance 0 (clockAt 5),
    .advance 0 (clockAt 5),
    .arrive (updateNote .null (some "unit") false [drawnName 0 (.version 0)]) (readingsAt 6),
    .advance 1 (clockAt 6), .advance 1 (clockAt 6),
    .arrive (updateNote (.bool true) none false [drawnName 0 (.version 0)]) (readingsAt 7),
    .advance 2 (clockAt 7), .advance 2 (clockAt 7),
    .arrive closeWithNote (readingsAt 8), .advance 3 (clockAt 8), .advance 3 (clockAt 8),
    .arrive (updateNote (.bool false) none false [drawnName 2 (.version 0)]) (readingsAt 9),
    .advance 4 (clockAt 9), .advance 4 (clockAt 9),
    .advance 3 (clockAt 9)]

/-- The conflicts of a unit can be resolved under the plans that are persisted with it. -/
def Resolvable (env : Environment) (db : Db) (unit : String) (fresh : Draw → String) : Prop :=
  ∃ conflicts resolutions, db.publicationConflicts unit = .ok conflicts ∧ conflicts ≠ [] ∧
    resolvePublicationConflicts env.automerge env.toText env.config fresh (fun _ => 10) conflicts =
      .ok resolutions

/-- The update of `n` was acknowledged, the unit has not expired and its conflict is resolvable; the
request that closed it comes again, is told that the unit is already committed, and does not publish
the unit. -/
theorem retried_close_is_refused :
    Reachable noteEnvironment lostRace ∧
    (∃ u ∈ lostRace.db.workUnits, u.identityJson = "unit" ∧ u.state = .closing ∧
      10 < u.expiresAtUnixMs) ∧
    Resolvable noteEnvironment lostRace.db "unit" (noteEnvironment.fresh 5) ∧
    (∃ p result route, lostRace.processes[1]? = some p ∧
      p.request.selection.publicationKey = some "unit" ∧ p.stage = .answered (.ok result) route) ∧
    closeWithNote.Closes "unit" ∧
    (∃ p, lostRace.processes[3]? = some p ∧ p.request = closeWithNote) ∧
    (∃ p, (lostRace.alone noteEnvironment closeWithNote (readingsAt 10)
        [clockAt 10]).processes[5]? = some p ∧
      p.stage = .answered (.error closedWorkUnit) .refused) ∧
    ∀ clocks, ¬ (lostRace.alone noteEnvironment closeWithNote (readingsAt 10)
      clocks).db.Committed "unit" := by
  refine ⟨World.after_reachable _ _, by decide, ⟨_, _, rfl, by decide, rfl⟩, ⟨_, _, _, rfl, rfl, rfl⟩,
    ⟨rfl, rfl⟩, ⟨_, rfl, rfl⟩, ⟨_, rfl, rfl⟩, fun clocks => ?_⟩
  have hlaw : noteEnvironment.automerge.Lawful := noAutomerge_lawful
  obtain ⟨hreach, -, hstranded, -⟩ := World.alone_stranded hlaw (World.after_reachable _ _)
    (w := lostRace) (show lostRace.db.Stranded "unit" by decide)
    (show closeWithNote.selection.publicationKey = some "unit" from rfl) (by decide) (readingsAt 10)
    clocks
  exact hstranded.not_committed (hreach.sound hlaw).inv.staging

/-- The retry at work: the update of `n` that the unit staged is not published. -/
theorem lost_update_stays_unpublished :
    ¬ (lostRace.alone noteEnvironment closeWithNote (readingsAt 10)
      [clockAt 10, clockAt 11]).db.IsPublished noteKey (drawnName 1 (.version 0)) :=
  (closing_unit_stays_unpublished (show noteEnvironment.automerge.Lawful from noAutomerge_lawful)
    (World.after_reachable _ _) (by decide) (show closeWithNote.Closes "unit" from ⟨rfl, rfl⟩)
    (readingsAt 10) [clockAt 10, clockAt 11]).2.1 _ _ (by decide)

end Patchouli
