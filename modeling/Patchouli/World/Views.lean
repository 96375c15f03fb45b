import Patchouli.World.Store
import Patchouli.Sqlite.Paging

/-!
# What readers see

A read in a unit shows the published state out of which the unit was opened, whatever happened
since, and what the unit staged over it; a retrieval shows exactly the entities of which a read at
that moment would show a matching active head.

The state a unit was opened out of is found in the run: the event that opens a unit publishes
nothing before it does, so the baseline of the new unit is the frontier of the world before the
event.

## Main definitions

* `OpenedOutOf` — the world a unit was opened out of

## Main results

* `repeatable_reads` — an entity a unit has not staged reads as it was published then
* `retrieval_agrees_in_unit`, `retrieval_agrees_published`
-/

namespace Patchouli

open Db Relation

variable {A : Automerge} {K : Known} {old mid new : Db}

/-! ### Baselines of new units -/

/-- Units stay, and a new one has the frontier there was as its baseline. -/
def Opens (old new : Db) : Prop :=
  ∀ u' ∈ new.workUnits, (∃ u ∈ old.workUnits, Evolves u u') ∨
    u'.baselineCursor = old.currentScopeCursor u'.scopeJson

theorem Opens.refl (db : Db) : Opens db db := fun u hu => Or.inl ⟨u, hu, Evolves.refl u⟩

/-- Units evolve; none is opened. -/
theorem Effects.evolves (hlaw : A.Lawful) (inv : Inv A old) (h : Effects A K old new)
    (hK : ∀ workUnit, ¬ K.unit workUnit) :
    ∀ u' ∈ new.workUnits, ∃ u ∈ old.workUnits, Evolves u u' := by
  induction h with
  | refl => exact fun u hu => ⟨u, hu, Evolves.refl u⟩
  | tail hbefore hstep ih =>
    intro u' hu'
    rcases hstep.unitsFrom hlaw (Effects.keeps hlaw inv hbefore).1 u' hu' with
      ⟨u, hu, hev⟩ | ⟨workUnit, hunit, -⟩
    · obtain ⟨u₀, hu₀, hev₀⟩ := ih u hu
      exact ⟨u₀, hu₀, hev₀.trans hev⟩
    · exact absurd hunit (hK workUnit)

theorem Opens.of_evolves
    (h : ∀ u' ∈ new.workUnits, ∃ u ∈ old.workUnits, Evolves u u') : Opens old new :=
  fun u' hu' => Or.inl (h u' hu')

theorem Opens.trans_evolves (h : Opens old mid)
    (h' : ∀ u' ∈ new.workUnits, ∃ u ∈ mid.workUnits, Evolves u u') : Opens old new := by
  intro u' hu'
  obtain ⟨u, hu, hev⟩ := h' u' hu'
  rcases h u hu with ⟨u₀, hu₀, hev₀⟩ | hbaseline
  · exact Or.inl ⟨u₀, hu₀, hev₀.trans hev⟩
  · exact Or.inr (by rw [hev.baselineCursor, hev.scopeJson]; exact hbaseline)

theorem Upkeep.opens (h : Upkeep K old new) : Opens old new := by
  by_cases hopen : ∃ workUnit now expires, new = old.openWorkUnit workUnit now expires
  · obtain ⟨workUnit, now, expires, rfl⟩ := hopen
    intro u' hu'
    rcases List.mem_append.mp hu' with hmem | hmem
    · exact Or.inl ⟨u', hmem, Evolves.refl u'⟩
    · rw [List.mem_singleton.mp hmem]
      exact Or.inr rfl
  · intro u' hu'
    left
    cases h with
    | sessions => exact ⟨u', hu', Evolves.refl u'⟩
    | forget => exact ⟨u', hu', Evolves.refl u'⟩
    | note => exact ⟨u', hu', Evolves.refl u'⟩
    | prune => exact ⟨u', hu', Evolves.refl u'⟩
    | expire h =>
      have hunits : UnitsFrom ⟨fun _ _ => False, fun _ => False, fun _ => False⟩ old new :=
        Upkeep.unitsFrom (.expire h)
      exact (hunits u' hu').resolve_right fun ⟨_, hno, _⟩ => hno
    | openUnit workUnit now expires => exact absurd ⟨workUnit, now, expires, rfl⟩ hopen
    | capture _ _ _ h =>
      obtain ⟨_, _, rfl⟩ := captureWorkUnitEntity_eq h
      exact ⟨u', hu', Evolves.refl u'⟩

theorem Upkeeps.opens (h : Upkeeps K old new) : Opens old new := by
  induction h with
  | refl => exact Opens.refl old
  | @tail last next hbefore hstep ih =>
    have hfrontier := (Upkeeps.sameHistory hbefore).scopeFrontier
    intro u' hu'
    rcases hstep.opens u' hu' with ⟨u, hu, hev⟩ | hbaseline
    · rcases ih u hu with ⟨u₀, hu₀, hev₀⟩ | hbaseline
      · exact Or.inl ⟨u₀, hu₀, hev₀.trans hev⟩
      · exact Or.inr (by rw [hev.baselineCursor, hev.scopeJson]; exact hbaseline)
    · rw [hbaseline, currentScopeCursor_congr hfrontier]
      exact Or.inr rfl

/-- A commit in a unit opens its unit before it publishes. -/
theorem WorkUnitCommitted.opens (hlaw : A.Lawful) (inv : Inv A old) {clock : Clock}
    {entity : WorkUnitCommit} {outcome : Except ProviderError WorkUnitCommitOutcome}
    (hformed : entity.entity.WellFormed A)
    (hscope : entity.workUnit.scopeJson = entity.entity.key.scopeJson)
    (h : WorkUnitCommitted clock entity old outcome new) : Opens old new := by
  let K : Known := ⟨fun _ _ => True, fun _ => True, fun _ => False⟩
  let K' : Known := ⟨fun _ _ => True, fun _ => False, fun _ => False⟩
  have hbase : ∀ {swept base : Db}, Swept clock.sweep old swept →
      Ensured swept entity.workUnit .opened base → Upkeeps K old base := fun hswept hensured =>
    (Expiries.upkeeps K hswept.expiries).trans (hensured.upkeeps trivial)
  cases h with
  | failed h => exact (Expiries.upkeeps K h).opens
  | refused h => exact (Expiries.upkeeps K h).opens
  | staged hswept hensured hstaged =>
    have hupkeep := hbase hswept hensured
    have inv' := (hupkeep.keeps inv).1
    exact hupkeep.opens.trans_evolves
      (Effects.evolves (K := K') hlaw inv' (hstaged.effects hlaw inv' hformed (fun _ _ => trivial)
        hscope) fun _ hno => hno)
  | closed hswept hensured hstaged _ h =>
    have hupkeep := hbase hswept hensured
    have inv' := (hupkeep.keeps inv).1
    have hstage : Effects A K' _ _ := hstaged.effects hlaw inv' hformed (fun _ _ => trivial) hscope
    have hclose := ClosedBy.effects (A := A) (K := K')
      (hstaged.closing_unit hlaw inv' hformed hscope) h
    exact hupkeep.opens.trans_evolves (Effects.evolves hlaw inv'
      ((hstage.tail (.close _ entity.workUnit.identityJson)).trans hclose) fun _ hno => hno)
  | joined hswept hensured _ h =>
    have hupkeep : Upkeeps K old _ := Expiries.upkeeps K hswept.expiries
    have inv' := (hupkeep.keeps inv).1
    exact hupkeep.opens.trans_evolves (Effects.evolves (K := K') hlaw inv'
      (ClosedBy.effects hensured.closing_unit h) fun _ hno => hno)

variable {env : Environment} {w w' : World}

theorem Process.Sound.step_opens (hlaw : env.automerge.Lawful) {i : ℕ} {p : Process}
    (h : p.Sound env i) (clock : Clock) {db : Db} (inv : Inv env.automerge db)
    (hkeyed : UnitsKeyed env.scopeOfKey db) : Opens db (p.step env i clock db).2 := by
  let K := Known.anything
  let K' : Known := ⟨fun _ _ => True, fun _ => False, fun _ => False⟩
  have hstage := h.stage
  unfold Process.StageSound at hstage
  unfold Process.step
  split
  · rename_i identity hat
    have hlive : ∀ outcome route, p.stage ≠ .answered outcome route := by simp [hat]
    unfold Process.callIdentify
    dsimp only
    split
    · rename_i selected hselected
      obtain ⟨-, hunit⟩ := h.workUnit hlive hselected
      refine Upkeeps.opens (K := K) (readIdempotencyInWorkUnit_upkeeps inv _ _ _ _ _ _ _ trivial ?_)
      intro u hu hid
      rw [← hkeyed u hu, hid, hunit]
    · exact Upkeeps.opens (K := K) (readIdempotency_upkeeps _ _ _ _ _ _ _)
  · rename_i hat
    have hlive : ∀ outcome route, p.stage ≠ .answered outcome route := by simp [hat]
    split
    · rename_i selected hselected
      exact Upkeeps.opens (K := K) (readEntityInWorkUnit_upkeeps inv _ _ _ trivial
        (h.workUnit hlive hselected).1)
    · exact Upkeeps.opens (K := K) (readEntity_upkeeps inv _ _ _)
  · rename_i prepared hat
    have hlive : ∀ outcome route, p.stage ≠ .answered outcome route := by simp [hat]
    rw [hat] at hstage
    obtain ⟨heads, hprepares⟩ := Process.Prepared.prepares hlaw hstage
    split
    · rename_i selected hselected
      have hscope := (h.workUnit hlive hselected).1.trans (Process.Prepares.scope_eq hprepares).2.symm
      exact WorkUnitCommitted.opens hlaw inv hprepares.formed hscope
        (commitEntityInWorkUnit_cases inv clock (p.workUnitCommit selected prepared))
    · exact Opens.of_evolves (Effects.evolves (K := K') hlaw inv
        (Process.commitEntityIdempotent_effects hlaw inv clock hprepares.formed fun _ _ => trivial)
          fun _ hno => hno)
    · exact Opens.of_evolves (Effects.evolves (K := K') hlaw inv
        (Process.commitEntity_effects inv clock hprepares.formed fun _ _ => trivial)
          fun _ hno => hno)
  · rename_i prepared resolutions hat
    rw [hat] at hstage
    split
    · exact Opens.of_evolves (Effects.evolves (K := K') hlaw inv
        (WorkUnitPublished.effects hlaw inv (Process.Resolves.wellFormed hstage.2)
          (fun _ _ _ _ => trivial) (publishWorkUnit_cases inv clock _)) fun _ hno => hno)
    · exact Opens.refl db
  · exact Upkeeps.opens (K := K) (readEntity_upkeeps inv _ _ _)
  · exact Opens.refl db

/-- **The baseline of a new unit is the frontier there was.** -/
theorem World.step_opens (hlaw : env.automerge.Lawful) (hsound : w.Sound env) (event : Event) :
    Opens w.db (w.step env event).db := by
  let K := Known.anything
  cases event with
  | arrive request readings =>
    simp only [step]
    split <;> exact Opens.refl w.db
  | advance i clock =>
    simp only [step]
    split
    · rename_i p hp
      exact (hsound.processes i p hp).step_opens hlaw clock hsound.inv hsound.keyed
    · exact Opens.refl w.db
  | read selection entityRef deadline now clock =>
    simp only [step, afterRead]
    split
    · rename_i hkey
      split
      · rename_i hselected _
        exact Upkeeps.opens (K := K) (readEntityInWorkUnit_upkeeps hsound.inv _ _ _ trivial
          (selected_keyed hkey hselected).1)
      · exact Upkeeps.opens (K := K) (readEntity_upkeeps hsound.inv _ _ _)
      · exact Opens.refl w.db
    · exact Opens.refl w.db
  | retrieve selections query deadline now clock =>
    simp only [step, afterRetrieve]
    split
    · rename_i hkeys
      split
      · rename_i hselected _
        obtain ⟨selection, hmem, hone⟩ := selectedRetrievalWorkUnit_some hselected
        exact Upkeeps.opens (K := K) (retrieveEntitiesInWorkUnit_upkeeps _ hsound.inv _ _ _ _ trivial
          ((selected_keyed (hkeys selection hmem).2 hone).1.trans (hkeys selection hmem).1))
      · exact Upkeeps.opens (K := K) (retrieveEntities_upkeeps _ _ _ _ _)
      · exact Opens.refl w.db
    · exact Opens.refl w.db
  | readChanges query => exact Upkeeps.opens (K := K) (readChanges_upkeeps _ _ trivial)
  | crashInPrune query => exact Upkeeps.opens (K := K) (notePrune_upkeeps _ _ trivial)
  | sweep now => exact Upkeeps.opens (sweep_upkeeps K hsound.inv now)

/-- The unit was opened out of `w₀`: by the event that follows it, or, if that is where the run
stands, by the next call. -/
def OpenedOutOf (env : Environment) (w₀ w : World) (identity : String) : Prop :=
  w₀.db.workUnit? identity = none ∧
    (w = w₀ ∨ ∃ event, ((w₀.step env event).db.workUnit? identity).isSome ∧
      Runs env (w₀.step env event) w)

theorem OpenedOutOf.runs {w₀ : World} {identity : String} (h : OpenedOutOf env w₀ w identity) :
    Runs env w₀ w := by
  rcases h.2 with rfl | ⟨event, -, hruns⟩
  · exact .refl
  · exact .head ⟨event, rfl⟩ hruns

theorem Reachable.openHeads (hlaw : env.automerge.Lawful) (h : Reachable env w) :
    OpenHeads w.db := by
  induction h with
  | start => simp [OpenHeads, World.start, Db.empty]
  | step event hbefore _ ih =>
    have hsound := Reachable.sound hlaw hbefore
    exact (World.step_effects hlaw hsound event).openHeads hlaw hsound.inv ih

/-- The baseline of a unit that was opened out of a world. -/
theorem OpenedOutOf.baseline (hlaw : env.automerge.Lawful) {w₀ : World} (hreach : Reachable env w₀)
    {identity : String} (h : OpenedOutOf env w₀ w identity) {u : WorkUnitRow}
    (hu : u ∈ w.db.workUnits) (hid : u.identityJson = identity) :
    u.baselineCursor = w₀.db.currentScopeCursor u.scopeJson := by
  obtain ⟨hnone, rfl | ⟨event, hsome, hruns⟩⟩ := h
  · have hno := List.find?_eq_none.mp hnone u hu
    simp [hid] at hno
  · obtain ⟨row, hrow⟩ := Option.isSome_iff_exists.mp hsome
    obtain ⟨hmem, hrowid⟩ := workUnit?_eq_some hrow
    have hstep : Reachable env (w₀.step env event) := .step event hreach trivial
    have hbaseline : row.baselineCursor = w₀.db.currentScopeCursor row.scopeJson := by
      refine (World.step_opens hlaw (hreach.sound hlaw) event row hmem).resolve_left ?_
      rintro ⟨u₀, hu₀, hev⟩
      have hno := List.find?_eq_none.mp hnone u₀ hu₀
      simp [← hev.identityJson, hrowid] at hno
    obtain ⟨u', hu', hev⟩ := (Runs.extends hlaw hruns hstep).units row hmem
    have hsame := ((Runs.reachable hruns hstep).sound hlaw).inv.staging.unit_eq hu hu'
      (hid.trans (hrowid.symm.trans hev.identityJson.symm))
    rw [hsame, hev.baselineCursor, hev.scopeJson]
    exact hbaseline

/-! ### Repeatable reads -/

/-- The state a read in a unit is made in, and the baseline it shows. -/
theorem OpenedOutOf.reads (hlaw : env.automerge.Lawful) {w₀ : World} (hreach : Reachable env w₀)
    {workUnit : WorkUnit} (h : OpenedOutOf env w₀ w workUnit.identityJson) {swept base : Db}
    {clock : Clock} {row : WorkUnitRow} (hreads : ReadsIn w.db swept base clock workUnit row) :
    row.baselineCursor = w₀.db.currentScopeCursor workUnit.scopeJson := by
  have hsound := (Runs.reachable h.runs hreach).sound hlaw
  obtain ⟨hupkeeps, inv', hmem, hid, hscope, -⟩ :=
    hreads.base (K := Known.anything) hsound.inv trivial
  have hext := (hupkeeps.keeps hsound.inv).2
  cases hfound : w.db.workUnit? workUnit.identityJson with
  | some u =>
    obtain ⟨hu, huid⟩ := workUnit?_eq_some hfound
    obtain ⟨u', hu', hev⟩ := hext.units u hu
    obtain rfl := inv'.staging.unit_eq hmem hu' (hid.trans (huid.symm.trans hev.identityJson.symm))
    rw [hev.baselineCursor, h.baseline hlaw hreach hu huid, ← hev.scopeJson, hscope]
  | none =>
    have hsame : w = w₀ := by
      refine h.2.resolve_right ?_
      rintro ⟨event, hsome, hruns⟩
      obtain ⟨u, hu⟩ := Option.isSome_iff_exists.mp hsome
      obtain ⟨humem, huid⟩ := workUnit?_eq_some hu
      obtain ⟨u', hu', hev⟩ :=
        (Runs.extends hlaw hruns (.step event hreach trivial)).units u humem
      have hno := List.find?_eq_none.mp hfound u' hu'
      simp [hev.identityJson, huid] at hno
    rw [← hsame, ← hscope]
    refine (Upkeeps.opens hupkeeps row hmem).resolve_left ?_
    rintro ⟨u, hu, hev⟩
    have hno := List.find?_eq_none.mp hfound u hu
    simp [← hev.identityJson, hid] at hno

/-- A published read returns the published snapshot of the state it was called in. -/
theorem readEntity_value {db : Db} (inv : Inv A db) {clock : Clock} {key : EntityKey}
    {consistency : ReadConsistency} {value : Option EntitySnapshot} {observation : ReadObservation}
    (h : (readEntity db clock key consistency).outcome = .ok (.read value observation)) :
    value = db.readEntitySnapshot key := by
  obtain ⟨swept, hswept, rfl, -⟩ := readEntity_served inv h
  obtain ⟨inv', hext⟩ := hswept.expiries.keeps inv
  have hsame := Upkeeps.sameHistory (Expiries.upkeeps Known.nothing hswept.expiries)
  exact readEntitySnapshot_eq inv inv' hext (currentScopeCursor_congr hsame.scopeFrontier _)

/-- **Reads in a unit repeat.** A unit was opened out of `w₀`. Whatever happened since, and whether
or not the unit had met the entity, as long as the unit is open and has not staged the entity, a
read of it in the unit returns what a published read returned in `w₀`, or in any state of the run
with the same frontier. -/
theorem repeatable_reads (hlaw : env.automerge.Lawful) {w₀ : World} (hreach : Reachable env w₀)
    {workUnit : WorkUnit} (hopened : OpenedOutOf env w₀ w workUnit.identityJson) {key : EntityKey}
    (hscope : workUnit.scopeJson = key.scopeJson)
    (hunstaged : ¬ w.db.HasUnitHeads workUnit.identityJson key) {clock : Clock}
    {consistency : ReadConsistency} {value : Option EntitySnapshot} {observation : ReadObservation}
    (h : (readEntityInWorkUnit w.db clock workUnit key consistency).outcome =
      .ok (.opened (.read value observation))) :
    value = w₀.db.readEntitySnapshot key ∧
      ∀ w', Reachable env w' → Runs env w' w →
        w'.db.currentScopeCursor key.scopeJson = w₀.db.currentScopeCursor key.scopeJson →
        ∀ clock' consistency' value' observation',
          (readEntity w'.db clock' key consistency').outcome = .ok (.read value' observation') →
            value = value' := by
  have hsound := (Runs.reachable hopened.runs hreach).sound hlaw
  obtain ⟨swept, base, captured, row, hreads, hcapture, rfl, -⟩ :=
    readEntityInWorkUnit_served hsound.inv h
  have hbaseline := hopened.reads hlaw hreach hreads
  obtain ⟨hupkeeps, inv', hmem, hid, hrowscope, -⟩ :=
    hreads.base (K := Known.anything) hsound.inv trivial
  rw [← hid] at hcapture ⊢
  obtain ⟨entities, bases, hcapture', inv'', hsome⟩ :=
    inv'.captured hmem (hrowscope.trans hscope)
  rw [hcapture', Except.ok.injEq] at hcapture
  have hext : Extends w.db captured := by
    rw [← hcapture]
    exact (hupkeeps.keeps hsound.inv).2.trans
      (inv'.capture hmem (hrowscope.trans hscope) hcapture').2
  have hnone : ¬ captured.HasUnitHeads row.identityJson key := by
    rintro ⟨head, hhead, hheadid, hheadkey⟩
    refine hunstaged ⟨head, ?_, hheadid.trans hid, hheadkey⟩
    rw [← hcapture] at hhead
    exact Upkeeps.unitHeads hupkeeps head hhead
  have inv₃ : Inv env.automerge captured := hcapture ▸ inv''
  have hmem' : row ∈ captured.workUnits := hcapture ▸ hmem
  have hsome' : (captured.unitEntity? row.identityJson key).isSome := hcapture ▸ hsome
  have hshows : ∀ w', Reachable env w' → Runs env w' w →
      w'.db.currentScopeCursor key.scopeJson = w₀.db.currentScopeCursor key.scopeJson →
        captured.readWorkUnitSnapshot row.identityJson key = w'.db.readEntitySnapshot key := by
    intro w' hreach' hruns hfrontier
    refine readWorkUnitSnapshot_unstaged (hreach'.sound hlaw).inv inv₃
      ((Runs.extends hlaw hruns hreach').trans hext) hmem' ?_ hsome' hnone
    rw [hbaseline, hscope, hfrontier]
  refine ⟨hshows w₀ hreach hopened.runs rfl, fun w' hreach' hruns hfrontier _ _ _ _ hread => ?_⟩
  rw [readEntity_value (hreach'.sound hlaw).inv hread]
  exact hshows w' hreach' hruns hfrontier

/-- A unit reads the note. -/
def readNoteInUnit : Event :=
  .read (noteSelection (some "unit") false []) ⟨"note", "n"⟩ none 5 (clockAt 5)

/-- The note is updated outside units. -/
def updatesNote : List Event :=
  [.arrive (updateNote (.bool true) none false [drawnName 0 (.version 0)]) (readingsAt 6),
    .advance 1 (clockAt 6), .advance 1 (clockAt 6)]

/-- The unit "unit", as a request names it. -/
def noteUnit (now : ℕ) : WorkUnit where
  identityJson := "unit"
  scopeJson := "scope"
  policyJson :=
    { snapshotKey := none, publication := .batch ["unit"] "close" (.bool true) 1000
      linearizationKey := none, commitOrderingKey := none }
  expiryAction := .discard
  nowUnixMs := now
  expiresAtUnixMs := now + 1000
  deadlineUnixMs := none

/-- A read that only asks for the authority. -/
def atAuthority : ReadConsistency := ⟨[.authority], [], [], none⟩

/-- The note as it was created. -/
def createdNote : EntitySnapshot where
  headVersions := [drawnName 0 (.version 0)]
  versions :=
    [{ version := drawnName 0 (.version 0), state := .active, valueJson := some .null
       crdtFields := [] }]

/-- The update changed nothing for the unit. -/
theorem updated_note_reads_the_same :
    some createdNote = onlyNote.db.readEntitySnapshot noteKey := by
  have hopened : OpenedOutOf noteEnvironment onlyNote (updatesNote.foldl
      (fun w event => w.step noteEnvironment event) (onlyNote.step noteEnvironment readNoteInUnit))
        "unit" :=
    ⟨by decide, Or.inr ⟨readNoteInUnit, by decide, Runs.foldl _ _⟩⟩
  have hread : (readEntityInWorkUnit (updatesNote.foldl (fun w event => w.step noteEnvironment event)
      (onlyNote.step noteEnvironment readNoteInUnit)).db (clockAt 7) (noteUnit 7) noteKey
        atAuthority).outcome = .ok (.opened (.read (some createdNote)
          ⟨.authority, 1, some (drawnName 0 (.version 0))⟩)) := by decide
  exact (repeatable_reads (show noteEnvironment.automerge.Lawful from noAutomerge_lawful)
    onlyNote_reachable (show OpenedOutOf noteEnvironment onlyNote _ (noteUnit 7).identityJson from
      hopened) rfl (by decide) hread).1

/-! ### Retrieval -/

/-- A call that sweeps and succeeds, by its sweep. -/
theorem sweepThen_swept {α : Type} {db : Db} {clock : Clock} {call : Db → Reply α} {value : α}
    (h : (sweepThen db clock call).outcome = .ok value) : ∃ swept,
      db.sweepExpiredWorkUnits clock.sweep = ⟨.ok (), swept⟩ ∧ (call swept).outcome = .ok value := by
  unfold sweepThen at h
  split at h
  · rename_i swept hsweep
    exact ⟨swept, hsweep, h⟩
  · cases h

theorem transaction_outcome {α : Type} {db : Db} {body : Except ProviderError (Finished α)}
    {f : Finished α} (h : body = .ok f) : (transaction db body).outcome = .ok f.value := by
  subst h
  obtain ⟨value, committed⟩ := f
  cases committed <;> rfl

/-- Where a retrieval in a unit is served, so is a read of any entity of its scope. -/
theorem retrieval_reads {db : Db} (inv : Inv A db) (hopen : OpenHeads db) {search : Search}
    {clock : Clock} {workUnit : WorkUnit} {query : RetrieveQuery} {consistency : ReadConsistency}
    (hscope : workUnit.scopeJson = query.scopeJson) {page : RetrievedPage}
    {observation : ReadObservation}
    (h : (retrieveEntitiesInWorkUnit search db clock workUnit query consistency).outcome =
      .ok (.opened (.read page observation))) :
    ∃ swept base row, db.sweepExpiredWorkUnits clock.sweep = ⟨.ok (), swept⟩ ∧
      swept.ensureWorkUnit workUnit = .ok (.opened, base) ∧ Inv A base ∧ OpenHeads base ∧
      row.identityJson = workUnit.identityJson ∧ (Sight.inUnit row).Open base query.scopeJson ∧
      page = (Sight.inUnit row).page search base query ∧
      ∀ key, key.scopeJson = query.scopeJson →
        (readEntityInWorkUnit db clock workUnit key consistency).outcome =
          .ok (.opened (.read (base.readInUnit row.identityJson key) observation)) := by
  obtain ⟨swept, hsweep, hcall⟩ := sweepThen_swept h
  obtain ⟨committed, hbody, -⟩ := transaction_eq_ok hcall
  obtain ⟨⟨state, base⟩, hensure, hbody⟩ := Except.bind_eq_ok.mp hbody
  dsimp only at hbody
  cases hclosed : closedOutcome (α := RetrievedPage) state with
  | some outcome =>
    rw [hclosed] at hbody
    simp only [commitBeforeDeadline_eq_ok, Finished.mk.injEq] at hbody
    exact absurd hbody.2.1.symm (closedOutcome_some hclosed _)
  | none =>
    obtain rfl := closedOutcome_none hclosed
    rw [hclosed] at hbody
    obtain ⟨baseline, hbaseline, hbody⟩ := Except.bind_eq_ok.mp hbody
    obtain ⟨row, hrow, rfl⟩ := workUnitBaseline_eq_ok.mp hbaseline
    obtain ⟨observed, hobserve, hbody⟩ := Except.bind_eq_ok.mp hbody
    cases observed with
    | none => simp at hbody
    | some observed =>
      obtain ⟨⟨captured, entities⟩, hloop, hbody⟩ := Except.bind_eq_ok.mp hbody
      simp only [commitBeforeDeadline_eq_ok, Finished.mk.injEq, WorkUnitOutcome.opened.injEq,
        ConsistentRead.read.injEq] at hbody
      obtain ⟨hdeadline, ⟨rfl, rfl⟩, -⟩ := hbody
      have hswept : Swept clock.sweep db swept := by
        have hok : (db.sweepExpiredWorkUnits clock.sweep).outcome = .ok () := by rw [hsweep]
        have hspec := sweepExpiredWorkUnits_spec inv hok
        rwa [hsweep] at hspec
      have hreads : ReadsIn db swept base clock workUnit row :=
        ⟨hswept, ensureWorkUnit_ensured hensure, hrow⟩
      obtain ⟨hupkeeps, inv', hmem, hid, hrowscope, hstate⟩ :=
        hreads.base (K := Known.anything) inv trivial
      have hopen' : OpenHeads base := Upkeeps.openHeads inv hopen hupkeeps
      rw [← hid, ← hscope, ← hrowscope] at hloop
      refine ⟨swept, base, row, hsweep, hensure, inv', hopen', hid,
        ⟨hmem, hrowscope.trans hscope, hstate⟩, ?_, fun key hkey => ?_⟩
      · have hhits := foldlM_retrieveCaptured_eq hmem inv' inv' hloop
        rw [List.nil_append, hrowscope, hscope] at hhits
        rw [hhits, ← hid]
        rfl
      · obtain ⟨unitEntities, unitBaseVersions, hcapture, -, -⟩ :=
          inv'.captured hmem (hrowscope.trans (hscope.trans hkey.symm))
        have hvalue : base.readInUnit row.identityJson key = readWorkUnitSnapshot
            { base with unitEntities, unitBaseVersions } row.identityJson key := by
          rw [readInUnit, hcapture]
        rw [hvalue]
        rw [hid] at hcapture ⊢
        rw [readEntityInWorkUnit, sweepThen, hsweep]
        refine transaction_outcome (f := ⟨WorkUnitOutcome.opened (.read (readWorkUnitSnapshot { base with unitEntities, unitBaseVersions }
            workUnit.identityJson key) observation), some (advanceReadSessions
              { base with unitEntities, unitBaseVersions } workUnit.scopeJson consistency
                row.baselineCursor)⟩)
          (Except.bind_eq_ok.mpr ⟨(StoredWorkUnitState.opened, base), hensure, ?_⟩)
        refine Except.bind_eq_ok.mpr ⟨_, hbaseline, Except.bind_eq_ok.mpr ⟨_, hobserve, ?_⟩⟩
        exact Except.bind_eq_ok.mpr ⟨_, hcapture, commitBeforeDeadline_eq_ok.mpr ⟨hdeadline, rfl⟩⟩

/-- A page agrees with some reads: the candidates it is cut out of are the entities of which a read
shows a matching active head, each once, and each hit carries what the read returns. -/
def RetrievedPage.Agrees (search : Search) (query : RetrieveQuery) (page : RetrievedPage)
    (reads : EntityKey → Option EntitySnapshot → Prop) : Prop :=
  ∃ candidates : List RetrievalCandidate,
    (candidates.map (·.key query.scopeJson)).Nodup ∧
    page.entities.map (·.key) = (query.page candidates).map (·.key query.scopeJson) ∧
    ∀ key value, key.scopeJson = query.scopeJson → reads key value →
      (key ∈ candidates.map (·.key query.scopeJson) ↔
        ∃ snapshot, value = some snapshot ∧ snapshot.Matches search query key) ∧
      ∀ hit ∈ page.entities, hit.key = key → value = some hit.snapshot

/-- The hits of the candidates of some reads agree with the reads. -/
theorem Shows.agrees {search : Search} {db : Db} {query : RetrieveQuery} {page : RetrievedPage}
    {visible : EntityKey → String → Bool} {read : EntityKey → Option EntitySnapshot}
    (hshows : Shows db query.scopeJson visible read)
    (hentities : page.entities = (retrieveCandidates search db query visible).1.filterMap
      fun candidate => (read (candidate.key query.scopeJson)).map
        (candidate.retrieved query.scopeJson))
    {reads : EntityKey → Option EntitySnapshot → Prop}
    (hreads : ∀ key value, key.scopeJson = query.scopeJson → reads key value → value = read key) :
    page.Agrees search query reads := by
  obtain ⟨candidates, hpage, hnodup, hcandidates⟩ := @Shows.candidates search _ _ _ _ hshows
  rw [hpage] at hentities
  refine ⟨candidates, hnodup, ?_, fun key value hkey hread => ?_⟩
  · rw [hentities]
    refine hits_keys fun candidate hcandidate => ?_
    obtain ⟨snapshot, hsnapshot, -⟩ := (hcandidates (candidate.key query.scopeJson) rfl).mp
      (List.mem_map_of_mem (RetrieveQuery.mem_page hcandidate))
    exact ⟨snapshot, hsnapshot⟩
  · rw [hreads key value hkey hread]
    refine ⟨hcandidates key hkey, ?_⟩
    rintro hit hhit rfl
    rw [hentities] at hhit
    obtain ⟨candidate, -, hhit⟩ := List.mem_filterMap.mp hhit
    obtain ⟨snapshot, hsnapshot, rfl⟩ := Option.map_eq_some_iff.mp hhit
    exact hsnapshot

theorem RetrievedPage.Agrees.mono {search : Search} {query : RetrieveQuery} {page : RetrievedPage}
    {reads reads' : EntityKey → Option EntitySnapshot → Prop} (h : page.Agrees search query reads)
    (hreads : ∀ key value, reads' key value → reads key value) :
    page.Agrees search query reads' := by
  obtain ⟨candidates, hnodup, hkeys, hall⟩ := h
  exact ⟨candidates, hnodup, hkeys, fun key value hkey hread =>
    hall key value hkey (hreads key value hread)⟩

/-- A retrieval in a unit agrees with the reads the unit can make at that moment. -/
theorem retrieveEntitiesInWorkUnit_agrees {db : Db} (inv : Inv A db) (hopen : OpenHeads db)
    {search : Search} {clock : Clock} {workUnit : WorkUnit} {query : RetrieveQuery}
    {consistency : ReadConsistency} (hscope : workUnit.scopeJson = query.scopeJson)
    {page : RetrievedPage} {observation : ReadObservation}
    (h : (retrieveEntitiesInWorkUnit search db clock workUnit query consistency).outcome =
      .ok (.opened (.read page observation))) :
    (∀ key, key.scopeJson = query.scopeJson → ∃ value,
      (readEntityInWorkUnit db clock workUnit key consistency).outcome =
        .ok (.opened (.read value observation))) ∧
    page.Agrees search query fun key value =>
      (readEntityInWorkUnit db clock workUnit key consistency).outcome =
        .ok (.opened (.read value observation)) := by
  obtain ⟨swept, base, row, -, -, inv', hopen', -, hsight, rfl, hreads⟩ :=
    retrieval_reads inv hopen hscope h
  refine ⟨fun key hkey => ⟨_, hreads key hkey⟩,
    (Sight.shows inv' hopen' hsight).agrees rfl fun key value hkey hread => ?_⟩
  have hsame := hread.symm.trans (hreads key hkey)
  simpa [Sight.read] using hsame

/-- A published retrieval agrees with what is published. -/
theorem retrieveEntities_agrees {db : Db} (inv : Inv A db) {search : Search} {clock : Clock}
    {query : RetrieveQuery} {consistency : ReadConsistency} {page : RetrievedPage}
    {observation : ReadObservation}
    (h : (retrieveEntities search db clock query consistency).outcome =
      .ok (.read page observation)) :
    page.Agrees search query fun key value => value = db.readEntitySnapshot key := by
  obtain ⟨rfl, -⟩ := retrieveEntities_served h
  exact (inv.shows query.scopeJson).agrees rfl fun _ _ _ hread => hread

/-- **Retrieval agrees with reading**: in an open unit with the reads the unit can make at that
moment, all of which are served, and outside units with published reads. -/
theorem retrieval_agrees_with_reading (hlaw : env.automerge.Lawful) (hreach : Reachable env w)
    (query : RetrieveQuery) (consistency : ReadConsistency) (clock : Clock) (page : RetrievedPage)
    (observation : ReadObservation) :
    (∀ workUnit : WorkUnit, workUnit.scopeJson = query.scopeJson →
      (retrieveEntitiesInWorkUnit env.search w.db clock workUnit query consistency).outcome =
        .ok (.opened (.read page observation)) →
      (∀ key, key.scopeJson = query.scopeJson → ∃ value,
        (readEntityInWorkUnit w.db clock workUnit key consistency).outcome =
          .ok (.opened (.read value observation))) ∧
      page.Agrees env.search query fun key value =>
        (readEntityInWorkUnit w.db clock workUnit key consistency).outcome =
          .ok (.opened (.read value observation))) ∧
    ((retrieveEntities env.search w.db clock query consistency).outcome =
        .ok (.read page observation) →
      page.Agrees env.search query fun key value => ∃ clock' consistency' observation',
        (readEntity w.db clock' key consistency').outcome = .ok (.read value observation')) := by
  have inv := (hreach.sound hlaw).inv
  refine ⟨fun workUnit hscope h => retrieveEntitiesInWorkUnit_agrees inv (hreach.openHeads hlaw)
    hscope h, fun h => (retrieveEntities_agrees inv h).mono ?_⟩
  rintro key value ⟨clock', consistency', observation', hread⟩
  exact readEntity_value inv hread

/-- A query for all notes. -/
def allNotes : RetrieveQuery where
  scopeJson := "scope"
  entityTypes := none
  text := none
  entityIds := none
  filters := []
  order := .newest
  fingerprint := ""
  after := none
  limit := 10

/-- The note is retrieved as it is read. -/
theorem one_note_is_retrieved :
    RetrievedPage.Agrees noteEnvironment.search allNotes
      (onlyNote.db.retrieveEntities noteEnvironment.search allNotes) fun key value =>
        ∃ clock' consistency' observation',
          (readEntity onlyNote.db clock' key consistency').outcome = .ok (.read value observation') :=
  (retrieval_agrees_with_reading (show noteEnvironment.automerge.Lawful from noAutomerge_lawful)
    onlyNote_reachable allNotes atAuthority (clockAt 7) _
      ⟨.authority, 1, some (drawnName 0 (.version 0))⟩).2 (by decide)

end Patchouli
