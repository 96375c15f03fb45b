import Patchouli.Sqlite.Visible
import Patchouli.World.Origins
import Patchouli.World.Informed
import Patchouli.World.ChangeLog

/-!
# Batches become visible at once

In a running system, whatever the processes do and in whatever order: what a unit staged is shown to
nobody else until the transaction that publishes the unit, and by that transaction all of it is
shown. A unit that expired before is never shown.

## Main definitions

* `Hides` — what no read, retrieval or change page outside the unit returns
* `HidesRecords` — nobody is given an answer the unit has recorded
* `Gone` — a unit that has expired

## Main results

* `Db.OnlyIn.hides` — a name that only the unit holds is hidden from every query
* `World.step_appears` — the transaction that publishes a unit
* `batch_publishes_at_once` — the three together, over runs
-/

namespace Patchouli

open Db Relation

/-! ### Hidden versions -/

/-- Nobody outside the unit is shown the version. -/
structure Hides (search : Search) (db : Db) (unit : String) (key : EntityKey) (version : String) :
    Prop where
  read : ∀ clock consistency snapshot observation,
    (readEntity db clock key consistency).outcome = .ok (.read (some snapshot) observation) →
      ¬ snapshot.Names version
  retrieve : ∀ clock query consistency page observation,
    (retrieveEntities search db clock query consistency).outcome = .ok (.read page observation) →
      ∀ hit ∈ page.entities, hit.key = key → ¬ hit.snapshot.Names version
  changes : ∀ query page, (readChanges db query).outcome = .ok page → ∀ c ∈ page.changes,
    (⟨query.scopeJson, c.entityType, c.entityId⟩ : EntityKey) = key → version ∉ c.headVersions
  readInUnit : ∀ clock (workUnit : WorkUnit) consistency snapshot observation,
    workUnit.identityJson ≠ unit → workUnit.scopeJson = key.scopeJson →
    (readEntityInWorkUnit db clock workUnit key consistency).outcome =
      .ok (.opened (.read (some snapshot) observation)) → ¬ snapshot.Names version
  retrieveInUnit : ∀ clock (workUnit : WorkUnit) query consistency page observation,
    workUnit.identityJson ≠ unit → workUnit.scopeJson = query.scopeJson →
    (retrieveEntitiesInWorkUnit search db clock workUnit query consistency).outcome =
      .ok (.opened (.read page observation)) →
      ∀ hit ∈ page.entities, hit.key = key → ¬ hit.snapshot.Names version

/-- Nobody outside the unit is given an answer that the unit has recorded. -/
def HidesRecords (db : Db) (unit : String) : Prop :=
  ∀ s ∈ db.unitIdempotency, s.workUnitJson = unit →
    ∀ clock scope consistency request now result,
      (readIdempotency db clock scope consistency s.record.identityJson request now).outcome ≠
        .ok (.replayed result)

section Hidden

variable {A : Automerge} {db : Db} {unit version : String} {key : EntityKey}

/-- The hits of a page are entities of its scope. -/
theorem RetrievedPage.Agrees.scope {search : Search} {query : RetrieveQuery} {page : RetrievedPage}
    {reads : EntityKey → Option EntitySnapshot → Prop} (h : page.Agrees search query reads)
    {hit : RetrievedEntity} (hhit : hit ∈ page.entities) : hit.key.scopeJson = query.scopeJson := by
  obtain ⟨candidates, -, hkeys, -⟩ := h
  have hmem : hit.key ∈ (query.page candidates).map (·.key query.scopeJson) :=
    hkeys ▸ List.mem_map_of_mem hhit
  obtain ⟨candidate, -, hkey⟩ := List.mem_map.mp hmem
  rw [← hkey]
  rfl

/-- A change on a page is a record of its scope. -/
theorem mem_readChanges {query : ChangeQuery} {page : ChangePage}
    (h : (readChanges db query).outcome = .ok page) {c : StoredChange} (hc : c ∈ page.changes) :
    ∃ row ∈ db.changes, row.key = ⟨query.scopeJson, c.entityType, c.entityId⟩ ∧
      row.headVersionsJson = c.headVersions := by
  unfold readChanges at h
  split at h
  · cases h
  · rename_i retainedAfter _
    simp only [Except.ok.injEq] at h
    subst h
    obtain ⟨row, hrow, rfl⟩ := List.mem_map.mp hc
    have hmatching : row ∈ ((db.changes.filter (retainedAfter ≤ ·.recordedAtUnixMs)).filter fun row =>
        row.key.scopeJson = query.scopeJson ∧ query.afterCursor < row.cursor) := by
      split at hrow
      · exact (List.mem_insertionSort _).mp (List.mem_filter.mp hrow).1
      · exact (List.mem_insertionSort _).mp
          (List.mem_filter.mp (List.mem_of_mem_take hrow)).1
    obtain ⟨hkept, hscope⟩ := List.mem_filter.mp hmatching
    refine ⟨row, (List.mem_filter.mp hkept).1, ?_, rfl⟩
    rw [← (of_decide_eq_true hscope).1]

/-- A read in a unit does not name what only another unit holds. -/
theorem Db.OnlyIn.readInUnit (h : db.OnlyIn unit key version) (inv : Inv A db) {clock : Clock}
    {workUnit : WorkUnit} (hne : workUnit.identityJson ≠ unit)
    (hscope : workUnit.scopeJson = key.scopeJson) {consistency : ReadConsistency}
    {snapshot : EntitySnapshot} {observation : ReadObservation}
    (hread : (readEntityInWorkUnit db clock workUnit key consistency).outcome =
      .ok (.opened (.read (some snapshot) observation))) : ¬ snapshot.Names version := by
  obtain ⟨swept, base, captured, row, hreads, hcapture, hvalue, -, -⟩ :=
    readEntityInWorkUnit_served inv hread
  obtain ⟨hupkeeps, inv', hrow, hid, hrowscope, -⟩ :=
    hreads.base (K := ⟨fun _ _ => True, fun _ => True, fun _ => False⟩) inv trivial
  rw [← hid] at hcapture
  have inv'' := (inv'.capture hrow (hrowscope.trans hscope) hcapture).1
  have hrows : ∀ r ∈ captured.versions, r ∈ db.versions := by
    obtain ⟨_, _, rfl⟩ := captureWorkUnitEntity_eq hcapture
    exact fun r hr => Upkeeps.rows hupkeeps r hr
  exact (h.mono hrows).readWorkUnitSnapshot inv'' hne hvalue.symm

/-- **A name that only the unit holds is hidden** from every query of anybody else. -/
theorem Db.OnlyIn.hides (h : db.OnlyIn unit key version) (inv : Inv A db) (hopen : OpenHeads db)
    (search : Search) : Hides search db unit key version where
  read clock consistency snapshot observation hread :=
    h.readEntitySnapshot inv (readEntity_value inv hread).symm
  retrieve clock query consistency page observation hread := by
    intro hit hhit hkey
    have hagrees := retrieveEntities_agrees inv hread
    have hscope := hagrees.scope hhit
    obtain ⟨candidates, -, -, hall⟩ := hagrees
    have hvalue := (hall hit.key _ hscope rfl).2 hit hhit rfl
    exact h.readEntitySnapshot inv (hkey ▸ hvalue)
  changes query page hread := by
    intro c hc hkey hversion
    obtain ⟨row, hrow, hrowkey, hheads⟩ := mem_readChanges hread hc
    refine h.not_isPublished ?_
    rw [← hkey, ← hrowkey]
    exact (inv.published.changes row hrow).2 version (hheads ▸ hversion)
  readInUnit clock workUnit consistency snapshot observation hne hscope hread :=
    h.readInUnit inv hne hscope hread
  retrieveInUnit clock workUnit query consistency page observation hne hscope hread := by
    intro hit hhit hkey
    obtain ⟨hserved, hagrees⟩ := retrieveEntitiesInWorkUnit_agrees inv hopen hscope hread
    have hhitscope := hagrees.scope hhit
    obtain ⟨candidates, -, -, hall⟩ := hagrees
    obtain ⟨value, hvalue⟩ := hserved hit.key hhitscope
    have hsame := (hall hit.key value hhitscope hvalue).2 hit hhit rfl
    subst hsame
    exact h.readInUnit inv hne (hscope.trans (hkey ▸ hhitscope.symm)) (hkey ▸ hvalue)

/-- **A staged record is not replayed** to anybody else. -/
theorem Db.Inv.hidesRecords (inv : Inv A db) (unit : String) : HidesRecords db unit := by
  intro s hs _ clock scope consistency request now result hread
  obtain ⟨observation, forgotten, -, hrecord, -⟩ := readIdempotency_served hread (by simp)
  obtain ⟨mid, hforget, hrecord⟩ := Except.bind_eq_ok.mp hrecord
  obtain ⟨-, rfl⟩ := deleteOverdueIdempotency_eq_ok.mp hforget
  split at hrecord
  · rename_i record hfound
    obtain ⟨hmem, hid⟩ := And.intro (List.mem_of_find?_eq_some hfound) (List.find?_some hfound)
    exact inv.idempotency.disjoint record (List.mem_filter.mp hmem).1 s hs (by simpa using hid)
  · simp only [Except.pure_eq_ok, Except.ok.injEq, Prod.mk.injEq] at hrecord
    have hanswer := hrecord.1
    split at hanswer <;> cases hanswer

end Hidden

/-! ### The publishing transaction -/

/-- The entities a process writes with its next call. -/
def Process.writes (p : Process) (key : EntityKey) : Prop :=
  match p.stage with
  | .commit prepared => key = prepared.commit.key
  | .publish _ resolutions => ∃ r ∈ resolutions, key = r.entity.key
  | _ => False

/-- The unit of a process was selected at the time that its request read first. -/
theorem Process.Sound.selectedAt {env : Environment} {i : ℕ} {p : Process} (h : p.Sound env i)
    (hlive : ∀ outcome route, p.stage ≠ .answered outcome route) {selected : SelectedWorkUnit}
    (hselected : p.admitted.workUnit = some selected) :
    selected.workUnit.nowUnixMs = p.readings.selected := by
  have hadmit := h.admitted.resolve_left fun ⟨outcome, route, hanswered⟩ =>
    hlive outcome route hanswered
  have hunit := (admitRequest_eq_ok hadmit).1
  rw [hselected] at hunit
  exact (selectedWorkUnit_some hunit).2.2.2

variable {env : Environment} {w w' : World} {unit version : String} {key : EntityKey}

/-- **The event that publishes a unit** is one call of one process, and shows all of the unit. -/
theorem World.step_appears (hlaw : env.automerge.Lawful) (hreach : Reachable env w) {event : Event}
    (hbefore : ¬ w.db.Committed unit) (hafter : (w.step env event).db.Committed unit) :
    ∃ i clock p, event = .advance i clock ∧ w.processes[i]? = some p ∧
      AppearsAtOnce p.readings.selected p.writes unit w.db (w.step env event).db := by
  have hsound := hreach.sound hlaw
  have inv := hsound.inv
  cases World.step_moved hsound event with
  | kept h =>
    have hsame := Upkeeps.noneSettled (fun _ => False) h
    exact absurd (hsame.committed not_false hafter) hbefore
  | @committed i clock p prepared base next hevent hp hat hnone hbase h hrecord =>
    have hread := (ReachableWhen.informed hlaw hreach) i p hp
    simp only [Process.Informed, hat] at hread
    obtain ⟨w₁, snapshot, -, -, hprepare⟩ := hread
    obtain ⟨-, ⟨_, _, _, _, _, _, _, _, _, _, _, heq⟩, -⟩ := commitEntityInTransaction_spec hlaw
      (Upkeeps.keeps inv hbase).1.crdt (prepare_prepares hlaw hprepare).formed.genuine h
    obtain ⟨idempotency, hrecord⟩ := hrecord
    have hunits : (w.step env event).db.workUnits = base.workUnits := by rw [hrecord, heq]
    have hsame := (Upkeeps.noneSettled (fun _ => False) hbase).trans (.of_eq hunits)
    exact absurd (hsame.committed not_false hafter) hbefore
  | @inUnit i clock p prepared selected hevent hp hat hselected h =>
    have hps := hsound.processes i p hp
    have hstage := hps.stage
    simp only [Process.StageSound, hat] at hstage
    obtain ⟨heads, hprepares⟩ := Process.Prepared.prepares hlaw hstage
    obtain ⟨-, hscope⟩ := Process.Prepares.scope_eq hprepares
    have hlive : ∀ outcome route, p.stage ≠ .answered outcome route := by simp [hat]
    have hnow := hps.selectedAt hlive hselected
    have hwrites : p.writes prepared.commit.key := by simp only [Process.writes, hat]
    refine ⟨i, clock, p, hevent, hp, hnow ▸ ?_⟩
    exact h.appears hlaw inv hprepares.formed
      ((hps.workUnit hlive hselected).1.trans hscope.symm) hwrites hbefore hafter
  | @published i clock p prepared resolutions selected hevent hp hat hselected h =>
    have hps := hsound.processes i p hp
    have hstage := hps.stage
    simp only [Process.StageSound, hat] at hstage
    have hlive : ∀ outcome route, p.stage ≠ .answered outcome route := by simp [hat]
    have hnow := hps.selectedAt hlive hselected
    have hwrites : ∀ r ∈ resolutions, p.writes r.entity.key := by
      intro r hr
      simp only [Process.writes, hat]
      exact ⟨r, hr, rfl⟩
    refine ⟨i, clock, p, hevent, hp, hnow ▸ ?_⟩
    exact h.appears hlaw inv (Process.Resolves.wellFormed hstage.2) hwrites hbefore hafter

/-! ### Expired units -/

/-- The unit is known, and expired. -/
def Db.Expired (db : Db) (unit : String) : Prop :=
  ∃ u ∈ db.workUnits, u.identityJson = unit ∧ u.state = .expired

/-- A unit that has expired holds nothing, and nothing is read in it. -/
structure Gone (search : Search) (db : Db) (unit : String) : Prop where
  expired : db.Expired unit
  uncommitted : ¬ db.Committed unit
  versions : ∀ r ∈ db.versions, r.workUnitJson ≠ some unit
  records : ∀ s ∈ db.unitIdempotency, s.workUnitJson ≠ unit
  unread : ∀ clock (workUnit : WorkUnit) key consistency value observation,
    workUnit.identityJson = unit →
    (readEntityInWorkUnit db clock workUnit key consistency).outcome ≠
      .ok (.opened (.read value observation))
  unretrieved : ∀ clock (workUnit : WorkUnit) query consistency page observation,
    workUnit.identityJson = unit →
    (retrieveEntitiesInWorkUnit search db clock workUnit query consistency).outcome ≠
      .ok (.opened (.read page observation))

section Expired

variable {A : Automerge} {db old new : Db}

/-- What has expired stays so. -/
theorem Db.Expired.extends (h : old.Expired unit) (hextends : Extends old new) :
    new.Expired unit := by
  obtain ⟨u, hu, hid, hstate⟩ := h
  obtain ⟨u', hu', hevolves⟩ := hextends.units u hu
  refine ⟨u', hu', hevolves.identityJson.trans hid, ?_⟩
  rw [hevolves.final (by simp [WorkUnitRow.Live, hstate]), hstate]

theorem Db.Expired.state_eq (h : db.Expired unit) (inv : Inv A db) {row : WorkUnitRow}
    (hrow : row ∈ db.workUnits) (hid : row.identityJson = unit) : row.state = .expired := by
  obtain ⟨u, hu, huid, hstate⟩ := h
  rw [inv.staging.unit_eq hrow hu (hid.trans huid.symm), hstate]

/-- No read has an expired unit open. -/
theorem ReadsIn.not_expired (inv : Inv A db) {swept base : Db} {clock : Clock} {workUnit : WorkUnit}
    {row : WorkUnitRow} (h : ReadsIn db swept base clock workUnit row)
    (hid : workUnit.identityJson = unit) : ¬ db.Expired unit := by
  intro hexpired
  obtain ⟨hupkeeps, inv', hrow, hrowid, -, hopen⟩ :=
    h.base (K := ⟨fun _ _ => True, fun _ => True, fun _ => False⟩) inv trivial
  have hexpired' := hexpired.extends (hupkeeps.keeps inv).2
  rw [hexpired'.state_eq inv' hrow (hrowid.trans hid)] at hopen
  cases hopen

/-- **An expired unit is gone.** -/
theorem Db.Expired.gone (h : db.Expired unit) (inv : Inv A db) (search : Search) :
    Gone search db unit where
  expired := h
  uncommitted := by
    rintro ⟨u, hu, hid, hstate⟩
    rw [h.state_eq inv hu hid] at hstate
    cases hstate
  versions := by
    intro r hr hunit
    obtain ⟨-, ⟨u, hu, hid, hlive⟩, -⟩ := inv.staging.staged r hr unit hunit
    simp [WorkUnitRow.Live, h.state_eq inv hu hid] at hlive
  records := by
    intro s hs hunit
    obtain ⟨u, hu, hid, hlive⟩ := inv.idempotency.units s hs
    simp [WorkUnitRow.Live, h.state_eq inv hu (hid.trans hunit)] at hlive
  unread := by
    intro clock workUnit key consistency value observation hid hread
    obtain ⟨_, _, _, _, hreads, -⟩ := readEntityInWorkUnit_served inv hread
    exact hreads.not_expired inv hid h
  unretrieved := by
    intro clock workUnit query consistency page observation hid hread
    obtain ⟨_, _, _, _, hreads, -⟩ := retrieveEntitiesInWorkUnit_served inv hread
    exact hreads.not_expired inv hid h

end Expired

/-! ### Runs -/

/-- In a later state, a version that was staged is published exactly where its unit is. -/
theorem Runs.published_iff (hlaw : env.automerge.Lawful) (hdraws : env.DrawsOnce)
    (h : Runs env w w') (hreach : Reachable env w) (hstaged : w.db.StagedBy unit key version) :
    w'.db.IsPublished key version ↔ w'.db.Committed unit := by
  have inv' := ((h.reachable hreach).sound hlaw).inv
  constructor
  · intro hpublished
    by_contra hnot
    exact (h.onlyIn hlaw hdraws hreach hstaged hnot).not_isPublished hpublished
  · intro hcommitted
    obtain ⟨r, hr, hunit, rfl, rfl⟩ := hstaged
    obtain ⟨cursor, hpublished⟩ :=
      (h.extends hlaw hreach).publishes_staged inv' hr hunit hcommitted
    exact ⟨publishedRow cursor r, hpublished, rfl, rfl, rfl⟩

/-- **Staged work is invisible and batches are published at once.** In every later state, what a
unit staged is published if and only if the unit is, and until then no query of anybody else
returns it. The event that publishes the unit is one transaction of one process, and shows all the
unit has. A unit that expired holds nothing and is never published, and what it staged is never
returned. -/
theorem batch_publishes_at_once (hlaw : env.automerge.Lawful) (hdraws : env.DrawsOnce)
    (hreach : Reachable env w) (unit : String) :
    (HidesRecords w.db unit ∧ ∀ key version, w.db.StagedBy unit key version →
      ∀ w', Runs env w w' → (w'.db.IsPublished key version ↔ w'.db.Committed unit) ∧
        (¬ w'.db.Committed unit → Hides env.search w'.db unit key version)) ∧
    (∀ event, ¬ w.db.Committed unit → (w.step env event).db.Committed unit →
      ∃ i clock p, event = .advance i clock ∧ w.processes[i]? = some p ∧
        AppearsAtOnce p.readings.selected p.writes unit w.db (w.step env event).db) ∧
    (w.db.Expired unit → ∀ w', Runs env w w' → Gone env.search w'.db unit ∧
      ∀ w₀ key version, Reachable env w₀ → Runs env w₀ w → w₀.db.StagedBy unit key version →
        Hides env.search w'.db unit key version) := by
  have hides : ∀ w₀ w' key version, Reachable env w₀ → Runs env w₀ w' →
      w₀.db.StagedBy unit key version → ¬ w'.db.Committed unit →
        Hides env.search w'.db unit key version := by
    intro w₀ w' key version hreach₀ hruns hstaged hnot
    have hreach' := hruns.reachable hreach₀
    exact (hruns.onlyIn hlaw hdraws hreach₀ hstaged hnot).hides (hreach'.sound hlaw).inv
      (hreach'.openHeads hlaw) env.search
  refine ⟨⟨(hreach.sound hlaw).inv.hidesRecords unit, fun key version hstaged w' hruns =>
    ⟨hruns.published_iff hlaw hdraws hreach hstaged,
      hides w w' key version hreach hruns hstaged⟩⟩,
    fun event => World.step_appears hlaw hreach, fun hexpired w' hruns => ?_⟩
  have hgone := (hexpired.extends (hruns.extends hlaw hreach)).gone
    ((hruns.reachable hreach).sound hlaw).inv env.search
  exact ⟨hgone, fun w₀ key version hreach₀ hbefore hstaged =>
    hides w₀ w' key version hreach₀ (hbefore.trans hruns) hstaged hgone.uncommitted⟩

/-- The first of two notes is hidden until the second closes their unit, and then both are shown. -/
theorem closingNotes_appear :
    Hides noteEnvironment.search closingNotes.db "unit" noteKey (drawnName 0 (.version 0)) ∧
      ∃ i clock p, Event.advance 1 (clockAt 6) = .advance i clock ∧
        closingNotes.processes[i]? = some p ∧
        AppearsAtOnce p.readings.selected p.writes "unit" closingNotes.db
          (closingNotes.step noteEnvironment (.advance 1 (clockAt 6))).db := by
  obtain ⟨⟨-, hhides⟩, happears, -⟩ := batch_publishes_at_once
    (show noteEnvironment.automerge.Lawful from noAutomerge_lawful) noteEnvironment_drawsOnce
    (w := closingNotes) (World.after_reachable noteEnvironment _) "unit"
  exact ⟨(hhides noteKey _ (by decide) closingNotes .refl).2 (by decide),
    happears _ (by decide) (by decide)⟩

end Patchouli
