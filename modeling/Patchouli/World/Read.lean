import Patchouli.World.Views

/-!
# Reads

`BackendEngine::read`: the variants of an entity are its heads, as the provider shows them. What is
shown of a version does not depend on when: a published version keeps its value for good, and a
staged one keeps it until its unit closes. So two reads under the same metadata show the same value
for the same version, whatever happened in between.

## Main definitions

* `engineRead` — the read of an engine
* `Db.Shows` — a version, with its value, as far as a read can see it

## Main results

* `engineRead_shows` — what is answered is stored
* `Db.Shows.value_eq` — a version has one value
-/

namespace Patchouli

open Db Relation

/-- The clock of an engine in a read. -/
structure ReadReadings where
  arrived : ℕ
  locked : ℕ
  selected : ℕ
  answered : ℕ

/-- `ReadEntityResult`. -/
structure ReadEntityResult where
  metaFields : Meta
  state : ReadState
  variants : List EntityVersion

/-! ### The answer -/

/-- `stored_entity`. -/
def storedEntity (entityRef : EntityRef) (stored : StoredEntityVersion) :
    Except BackendError EntityVersion :=
  match stored.state with
  | .active => do
    let value ← storedValue stored
    return .active entityRef stored.version value
  | .deleted => return .deleted entityRef stored.version

/-- A head, among the versions of its snapshot. -/
def headEntity (entityRef : EntityRef) (snapshot : EntitySnapshot) (version : String) :
    Except BackendError EntityVersion :=
  match snapshot.versions.find? (·.version = version) with
  | none => .error (providerCorruption "current head version is missing")
  | some stored => storedEntity entityRef stored

/-- `head_entities`. -/
def headEntities (entityRef : EntityRef) (snapshot : EntitySnapshot) :
    Except BackendError (List EntityVersion) :=
  snapshot.headVersions.mapM (headEntity entityRef snapshot)

/-- `read_state`. -/
def readState : List EntityVersion → ReadState
  | [.active ..] => .active
  | [.deleted ..] => .deleted
  | _ => .conflicted

/-- `consistent_value`, with the observation. -/
def observedValue {α : Type} : ConsistentRead α → Except BackendError (α × ReadObservation)
  | .read value observation => .ok (value, observation)
  | .unavailable => .error unavailableFrontier

def observedInWorkUnit {α : Type} : WorkUnitOutcome α → Except BackendError (α × ReadObservation)
  | .opened read => observedValue read
  | .closing => .error closedWorkUnit
  | .policyMismatch => .error workUnitPolicyMismatch
  | .committed => .error closedWorkUnit
  | .expired => .error expiredWorkUnit

/-- `read_selected`. -/
def readSelected (db : Db) (clock : Clock) (workUnit : Option SelectedWorkUnit) (key : EntityKey)
    (consistency : ReadConsistency) :
    Except BackendError (Option EntitySnapshot × ReadObservation) × Db :=
  match workUnit with
  | none =>
    let reply := readEntity db clock key consistency
    ((reply.outcome.mapError providerBackendError).bind observedValue, reply.db)
  | some selected =>
    let reply := readEntityInWorkUnit db clock selected.workUnit key consistency
    ((reply.outcome.mapError providerBackendError).bind observedInWorkUnit, reply.db)

section EngineRead

variable (selection : PolicySelection) (entityRef : EntityRef) (deadline : Option ℕ)
  (readings : ReadReadings)

/-- A read up to its provider call. -/
def admitRead : Except BackendError (Option SelectedWorkUnit × ReadConsistency) := do
  checkDeadline deadline readings.arrived
  checkDeadline deadline readings.locked
  let workUnit ← selectedWorkUnit selection deadline readings.selected
  let consistency ← readConsistency [selection] deadline false
  return (workUnit, consistency)

/-- The answer to a read, from what the provider showed. -/
def answerRead (read : Option EntitySnapshot × ReadObservation) :
    Except BackendError ReadEntityResult :=
  match read.1 with
  | none => .error notFound
  | some snapshot => do
    checkDeadline deadline readings.answered
    let variants ← headEntities entityRef snapshot
    return {
      metaFields := consistencyMeta selection read.2.causalToken
      state := readState variants
      variants }

/-- `BackendEngine::read`. -/
def engineRead (db : Db) (clock : Clock) : Except BackendError ReadEntityResult × Db :=
  match admitRead selection deadline readings with
  | .error error => (.error error, db)
  | .ok (workUnit, consistency) =>
    let (outcome, db) :=
      readSelected db clock workUnit (entityKey selection entityRef) consistency
    (outcome.bind (answerRead selection entityRef deadline readings), db)

end EngineRead

/-! ### What a read can see -/

/-- The work unit a selection reads in. -/
def PolicySelection.readsIn (selection : PolicySelection) : Option String :=
  match selection.publication with
  | .immediate => none
  | .batch .. => selection.publicationKey

/-- A version is stored with a value, and it is published or staged in a unit. -/
def Db.Shows (db : Db) (unit : Option String) (key : EntityKey) (version : String)
    (value : Json.Value) : Prop :=
  ∃ r ∈ db.versions, r.key = key ∧ r.version = version ∧ r.valueJson = some value ∧
    (r.workUnitJson = none ∨ r.workUnitJson = unit)

/-- The unit, if any, is not over. -/
def Db.InUse (db : Db) (unit : Option String) : Prop :=
  ∀ identity ∈ unit, ∃ u ∈ db.workUnits, u.identityJson = identity ∧ u.Live

section Shows

variable {A : Automerge} {old new : Db} {unit : Option String} {key : EntityKey} {version : String}
  {value value' : Json.Value}

/-- **A version has one value**, as long as it can be read. -/
theorem Db.Shows.value_eq (inv : Inv A new) (hext : Extends old new)
    (h : old.Shows unit key version value) (h' : new.Shows unit key version value')
    (huse : new.InUse unit) : value = value' := by
  obtain ⟨r, hr, hkey, hversion, hvalue, hunit⟩ := h
  obtain ⟨r', hr', hkey', hversion', hvalue', -⟩ := h'
  have hkept : ∀ kept ∈ new.versions, kept.key = r.key → kept.version = r.version →
      kept.valueJson = r.valueJson → value = value' := by
    intro kept hmem hk hv hsame
    obtain rfl := inv.staging.versionKeys.eq hmem hr' (hk.trans (hkey.trans hkey'.symm))
      (hv.trans (hversion.trans hversion'.symm))
    exact Option.some.inj (hvalue.symm.trans (hsame.symm.trans hvalue'))
  cases hstaged : r.workUnitJson with
  | none => exact hkept r (hext.published r hr hstaged) rfl rfl rfl
  | some identity =>
    rcases hext.staged r hr identity hstaged with hmem | ⟨cursor, hmem⟩ | ⟨u, hu, hid, hexpired⟩
    · exact hkept r hmem rfl rfl rfl
    · exact hkept _ hmem rfl rfl rfl
    · have hin : identity ∈ unit := by
        rcases hunit with hnone | hsome
        · rw [hstaged] at hnone
          cases hnone
        · exact hsome.symm.trans hstaged
      obtain ⟨u', hu', hid', hlive⟩ := huse identity hin
      obtain rfl := inv.staging.unit_eq hu hu' (hid.trans hid'.symm)
      rcases hlive with hlive | hlive <;> rw [hlive] at hexpired <;> cases hexpired

theorem headEntities_active {entityRef ref : EntityRef} {snapshot : EntitySnapshot}
    {variants : List EntityVersion} (h : headEntities entityRef snapshot = .ok variants)
    (hvariant : .active ref version value ∈ variants) : ref = entityRef ∧
      ∃ stored ∈ snapshot.versions, stored.version = version ∧ stored.valueJson = some value := by
  obtain ⟨head, -, hhead⟩ := Except.mem_of_mapM h hvariant
  unfold headEntity at hhead
  cases hfound : snapshot.versions.find? (·.version = head) with
  | none => simp [hfound] at hhead
  | some stored =>
    simp only [hfound, storedEntity] at hhead
    split at hhead
    · obtain ⟨found, hvalue, hhead⟩ := Except.bind_eq_ok.mp hhead
      cases hhead
      refine ⟨rfl, stored, List.mem_of_find?_eq_some hfound, rfl, ?_⟩
      unfold storedValue at hvalue
      split at hvalue
      · rename_i hstored
        cases hvalue
        exact hstored
      · cases hvalue
    · cases hhead

/-- What a unit has of other transactions is published. -/
theorem Db.Inv.baseline_published (inv : Inv A new) {identity : String}
    (h : new.InBaseline identity key version) : new.IsPublished key version := by
  obtain ⟨b, hb, rfl, rfl, rfl⟩ := h
  obtain ⟨e, he, hid, hkey⟩ := inv.baseline.entities b hb
  obtain ⟨u, hu, huid, -⟩ := inv.staging.entityUnits e he
  have hbase := (inv.baseline.base e he u hu huid b.version b.isHead).mp (by rw [hid, hkey]; exact hb)
  obtain ⟨⟨r, hr, hrkey, hname, hby⟩, -⟩ := hbase
  exact ⟨r, hr, hrkey.trans hkey, hname, hby.1⟩

theorem readEntitySnapshot_shows (inv : Inv A new) {snapshot : EntitySnapshot}
    (h : new.readEntitySnapshot key = some snapshot) {stored : StoredEntityVersion}
    (hstored : stored ∈ snapshot.versions) (hvalue : stored.valueJson = some value) :
    new.Shows none key stored.version value := by
  unfold readEntitySnapshot at h
  split at h
  · cases h
  · cases h
    obtain ⟨r, hr, hvisible, rfl⟩ := mem_snapshotVersions.mp hstored
    obtain ⟨hkey, hpublished⟩ := of_decide_eq_true hvisible
    exact ⟨r, hr, hkey, rfl, hvalue, Or.inl ((inv.publishedCursor_isSome hr).mp hpublished)⟩

theorem readWorkUnitSnapshot_shows (inv : Inv A new) {identity : String}
    {snapshot : EntitySnapshot} (h : new.readWorkUnitSnapshot identity key = some snapshot)
    {stored : StoredEntityVersion} (hstored : stored ∈ snapshot.versions)
    (hvalue : stored.valueJson = some value) :
    new.Shows (some identity) key stored.version value := by
  unfold readWorkUnitSnapshot at h
  split at h
  · cases h
  · cases h
    obtain ⟨r, hr, hvisible, rfl⟩ := mem_snapshotVersions.mp hstored
    obtain ⟨hkey, hbaseline | hstaged⟩ := of_decide_eq_true hvisible
    · obtain ⟨r', hr', hkey', hname, hnone⟩ := inv.baseline_published hbaseline
      obtain rfl := inv.staging.versionKeys.eq hr hr' (hkey.trans hkey'.symm) hname.symm
      exact ⟨r, hr, hkey, rfl, hvalue, Or.inl hnone⟩
    · exact ⟨r, hr, hkey, rfl, hvalue, Or.inr hstaged⟩

end Shows

/-! ### Reads of an engine -/

section EngineRead

variable {env : Environment} {w : World} {selection : PolicySelection} {entityRef : EntityRef}
  {deadline : Option ℕ} {readings : ReadReadings} {clock : Clock}

theorem admitRead_eq_ok {workUnit : Option SelectedWorkUnit} {consistency : ReadConsistency}
    (h : admitRead selection deadline readings = .ok (workUnit, consistency)) :
    selectedWorkUnit selection deadline readings.selected = .ok workUnit ∧
      readConsistency [selection] deadline false = .ok consistency := by
  obtain ⟨_, -, h⟩ := Except.bind_eq_ok.mp h
  obtain ⟨_, -, h⟩ := Except.bind_eq_ok.mp h
  obtain ⟨_, hselected, h⟩ := Except.bind_eq_ok.mp h
  obtain ⟨_, hconsistency, h⟩ := Except.bind_eq_ok.mp h
  cases h
  exact ⟨hselected, hconsistency⟩

theorem selectedWorkUnit_readsIn {now : ℕ} {workUnit : Option SelectedWorkUnit}
    (h : selectedWorkUnit selection deadline now = .ok workUnit) :
    selection.readsIn = workUnit.map (·.workUnit.identityJson) := by
  unfold selectedWorkUnit at h
  unfold PolicySelection.readsIn
  cases hpublication : selection.publication with
  | immediate =>
    simp only [hpublication] at h
    cases h
    rfl
  | batch keyBy closeField closeEquals stagingTtlMs =>
    simp only [hpublication] at h
    split at h
    · cases h
    · rename_i hkey
      split at h
      · cases h
      · cases h
        exact hkey

/-- A read is an event, unless it was refused before it reached the provider. -/
theorem engineRead_runs (env : Environment) (w : World)
    (hkeyed : selection.KeyInScope env.scopeOfKey) :
    Runs env w { w with db := (engineRead selection entityRef deadline readings w.db clock).2 } := by
  unfold engineRead
  cases hadmitted : admitRead selection deadline readings with
  | error error => exact .refl
  | ok admitted =>
    obtain ⟨workUnit, consistency⟩ := admitted
    obtain ⟨hselected, hconsistency⟩ := admitRead_eq_ok hadmitted
    refine .single ⟨.read selection entityRef deadline readings.selected clock, ?_⟩
    dsimp only [World.step, World.afterRead]
    rw [if_pos hkeyed, hselected, hconsistency]
    cases workUnit <;> rfl

/-- What the provider showed is stored. -/
theorem readSelected_shows {A : Automerge} {db : Db} {key : EntityKey}
    {workUnit : Option SelectedWorkUnit} {consistency : ReadConsistency} (inv : Inv A db)
    (inv' : Inv A (readSelected db clock workUnit key consistency).2) {snapshot : EntitySnapshot}
    {observation : ReadObservation}
    (h : (readSelected db clock workUnit key consistency).1 = .ok (some snapshot, observation)) :
    (readSelected db clock workUnit key consistency).2.InUse
        (workUnit.map (·.workUnit.identityJson)) ∧
      ∀ stored ∈ snapshot.versions, ∀ value, stored.valueJson = some value →
        (readSelected db clock workUnit key consistency).2.Shows
          (workUnit.map (·.workUnit.identityJson)) key stored.version value := by
  cases workUnit with
  | none =>
    obtain ⟨reply, hreply, hobserved⟩ := Except.bind_eq_ok.mp h
    rw [Except.mapError_eq_ok] at hreply
    cases reply with
    | unavailable => cases hobserved
    | read value observed =>
      cases hobserved
      obtain ⟨swept, -, hvalue, hserved⟩ := readEntity_served inv hreply
      refine ⟨fun _ h => (nomatch h), fun stored hstored value hjson => ?_⟩
      refine readEntitySnapshot_shows inv' ?_ hstored hjson
      dsimp only [readSelected]
      rw [hserved.db_eq]
      exact hvalue.symm
  | some selected =>
    obtain ⟨reply, hreply, hobserved⟩ := Except.bind_eq_ok.mp h
    rw [Except.mapError_eq_ok] at hreply
    cases reply with
    | opened read =>
      cases read with
      | unavailable => cases hobserved
      | read value observed =>
        cases hobserved
        obtain ⟨swept, base, captured, row, hreads, hcapture, hvalue, -, hdb⟩ :=
          readEntityInWorkUnit_served inv hreply
        obtain ⟨-, -, hrow, hid, -, hopen⟩ := hreads.base (K := Known.anything) inv trivial
        obtain ⟨_, _, rfl⟩ := captureWorkUnitEntity_eq hcapture
        refine ⟨?_, fun stored hstored value hjson => ?_⟩
        · rintro identity hidentity
          obtain rfl : selected.workUnit.identityJson = identity := Option.some.inj hidentity
          refine ⟨row, ?_, hid, Or.inl hopen⟩
          dsimp only [readSelected]
          rw [hdb]
          exact hrow
        · refine readWorkUnitSnapshot_shows inv' ?_ hstored hjson
          dsimp only [readSelected]
          rw [hdb]
          exact hvalue.symm
    | _ => cases hobserved

/-- **What is answered is stored**: published, or staged in the unit that is read in. -/
theorem engineRead_shows (hlaw : env.automerge.Lawful) (hreach : Reachable env w)
    (hkeyed : selection.KeyInScope env.scopeOfKey) {result : ReadEntityResult}
    (h : (engineRead selection entityRef deadline readings w.db clock).1 = .ok result) :
    (engineRead selection entityRef deadline readings w.db clock).2.InUse selection.readsIn ∧
      ∀ ref version value, .active ref version value ∈ result.variants →
        (engineRead selection entityRef deadline readings w.db clock).2.Shows selection.readsIn
          (entityKey selection entityRef) version value := by
  have inv := (hreach.sound hlaw).inv
  have hruns : Runs env w { w with
      db := (engineRead selection entityRef deadline readings w.db clock).2 } :=
    engineRead_runs env w hkeyed
  have inv' := ((hruns.reachable hreach).sound hlaw).inv
  unfold engineRead at h inv' ⊢
  cases hadmitted : admitRead selection deadline readings with
  | error error => simp [hadmitted] at h
  | ok admitted =>
    obtain ⟨workUnit, consistency⟩ := admitted
    obtain ⟨hselected, -⟩ := admitRead_eq_ok hadmitted
    simp only [hadmitted] at h inv' ⊢
    rw [selectedWorkUnit_readsIn hselected]
    obtain ⟨⟨read, observation⟩, hread, hanswer⟩ := Except.bind_eq_ok.mp h
    cases read with
    | none => cases hanswer
    | some snapshot =>
      obtain ⟨_, -, hanswer⟩ := Except.bind_eq_ok.mp hanswer
      obtain ⟨variants, hvariants, hanswer⟩ := Except.bind_eq_ok.mp hanswer
      cases hanswer
      obtain ⟨huse, hshows⟩ := readSelected_shows inv inv' hread
      refine ⟨huse, fun ref version value hvariant => ?_⟩
      obtain ⟨-, stored, hstored, rfl, hvalue⟩ := headEntities_active hvariants hvariant
      exact hshows stored hstored value hvalue

end EngineRead

end Patchouli
