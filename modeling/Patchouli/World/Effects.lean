import Patchouli.World
import Patchouli.Backend.Guarantees
import Patchouli.Sqlite.Publish

/-!
# What events do

An event is a sequence of effects on the tables. The calls say so, given what they trust the engine
in; what the engine guarantees is a property of the processes in flight, `Process.Sound`, that every
step keeps: a process holds a commit only if `prepare` made it, and resolutions only if
`resolvePublicationConflicts` did.

So the invariant of the tables holds in every reachable world, and along every run the tables
extend.

## Main definitions

* `Process.Sound`, `World.Sound` — what is known of a world
* `Process.brings` — the versions a step may store
* `Runs` — from one world to a later one

## Main results

* `World.step_effects` — an event is a sequence of effects
* `Reachable.sound` — reachable worlds are sound
* `Runs.extends` — the tables extend along a run
-/

namespace Patchouli

open Db Relation

/-! ### Units keep their scope -/

section Units

variable {A : Automerge} {K : Known} {old new : Db}

/-- A unit is one there was, or one that was opened. -/
def UnitsFrom (K : Known) (old new : Db) : Prop :=
  ∀ u' ∈ new.workUnits, (∃ u ∈ old.workUnits, Evolves u u') ∨
    ∃ workUnit, K.unit workUnit ∧ u'.identityJson = workUnit.identityJson ∧
      u'.scopeJson = workUnit.scopeJson

theorem UnitsFrom.of_eq (h : new.workUnits = old.workUnits) : UnitsFrom K old new :=
  fun u' hu' => Or.inl ⟨u', h ▸ hu', Evolves.refl u'⟩

theorem Upkeep.unitsFrom (h : Upkeep K old new) : UnitsFrom K old new := by
  cases h with
  | sessions => exact .of_eq rfl
  | forget => exact .of_eq rfl
  | note => exact .of_eq rfl
  | prune => exact .of_eq rfl
  | expire h =>
    obtain ⟨hunit, hlive, -, h⟩ := h
    obtain ⟨rfl, -⟩ := expireWorkUnit_spec h
    intro u' hu'
    obtain ⟨u, hu, rfl⟩ := List.mem_map.mp hu'
    refine Or.inl ⟨u, hu, ?_⟩
    split
    · rename_i hover
      refine ⟨rfl, rfl, rfl, rfl, rfl, ?_⟩
      rcases hover.2 with hopen | hclosing
      · exact Or.inr (Or.inl hopen)
      · exact Or.inr (Or.inr ⟨hclosing, by simp⟩)
    · exact Evolves.refl u
  | openUnit workUnit now expires hunit =>
    intro u' hu'
    rcases List.mem_append.mp hu' with hold | hnew
    · exact Or.inl ⟨u', hold, Evolves.refl u'⟩
    · rw [List.mem_singleton.mp hnew]
      exact Or.inr ⟨workUnit, hunit, rfl, rfl⟩
  | capture _ _ _ h =>
    obtain ⟨_, _, rfl⟩ := captureWorkUnitEntity_eq h
    exact .of_eq rfl

theorem Effect.unitsFrom (hlaw : A.Lawful) (inv : Inv A old) (h : Effect A K old new) :
    UnitsFrom K old new := by
  cases h with
  | upkeep h => exact h.unitsFrom
  | commit hformed _ h =>
    obtain ⟨-, ⟨_, _, _, _, _, _, _, _, _, _, _, rfl⟩, -⟩ :=
      commitEntityInTransaction_spec hlaw inv.crdt hformed.genuine h
    exact .of_eq rfl
  | record _ h =>
    rw [insertIdempotency_eq h]
    exact .of_eq rfl
  | @stage _ unit staged _ _ _ _ hformed _ _ h =>
    have hcrdt : CrdtInv A (old.recordStagedMutation staged) :=
      inv.crdt.congr (fun _ _ h => h) rfl rfl rfl
    obtain ⟨mid, hinsert, hreplace⟩ := Except.bind_eq_ok.mp h
    obtain ⟨⟨_, _, _, rfl⟩, -⟩ := stage_spec hlaw hcrdt hformed.genuine hinsert hreplace
    exact .of_eq rfl
  | stageRecord _ _ _ h =>
    rw [insertWorkUnitIdempotency_eq h]
    exact .of_eq rfl
  | close identity =>
    intro u' hu'
    obtain ⟨u, hu, rfl⟩ := List.mem_map.mp hu'
    refine Or.inl ⟨u, hu, ?_⟩
    split
    · rename_i hopen
      exact ⟨rfl, rfl, rfl, rfl, rfl, Or.inr (Or.inl hopen.2)⟩
    · exact Evolves.refl u
  | resolve _ _ _ _ hgenuine _ hinsert h =>
    obtain ⟨⟨_, _, _, rfl⟩, -⟩ := stage_spec hlaw inv.crdt hgenuine hinsert h
    exact .of_eq rfl
  | @publish _ unit recordedAt hunit hclosing h =>
    obtain ⟨mid, -, hpublished, -, -, -, rfl⟩ :=
      finishWorkUnitPublication_spec inv hunit (Or.inr hclosing) h
    intro u' hu'
    obtain ⟨u, hu, rfl⟩ := List.mem_map.mp hu'
    rw [hpublished.workUnits_eq] at hu
    refine Or.inl ⟨u, hu, ?_⟩
    split
    · rename_i hid
      refine ⟨rfl, rfl, rfl, rfl, rfl, Or.inr (Or.inr ⟨?_, by simp⟩)⟩
      rw [inv.staging.unit_eq hu hunit hid]
      exact hclosing
    · exact Evolves.refl u

/-- Units that are named by their scope stay so. -/
def UnitsKeyed (scopeOfKey : String → String) (db : Db) : Prop :=
  ∀ u ∈ db.workUnits, scopeOfKey u.identityJson = u.scopeJson

theorem UnitsFrom.keyed {scopeOfKey : String → String} (h : UnitsFrom K old new)
    (hK : ∀ workUnit, K.unit workUnit → scopeOfKey workUnit.identityJson = workUnit.scopeJson)
    (hold : UnitsKeyed scopeOfKey old) : UnitsKeyed scopeOfKey new := by
  intro u' hu'
  rcases h u' hu' with ⟨u, hu, hev⟩ | ⟨workUnit, hunit, hid, hscope⟩
  · rw [hev.identityJson, hev.scopeJson]
    exact hold u hu
  · rw [hid, hscope]
    exact hK workUnit hunit

/-- More may be known. -/
theorem Effects.mono {K' : Known} (h : Effects A K old new)
    (hversion : ∀ key version, K.version key version → K'.version key version)
    (hunit : ∀ workUnit, K.unit workUnit → K'.unit workUnit)
    (hretention : ∀ time, K.retention time → K'.retention time) : Effects A K' old new := by
  refine ReflTransGen.mono (fun a b hab => ?_) _ _ h
  cases hab with
  | upkeep h =>
    refine .upkeep ?_
    cases h with
    | sessions scope consistency frontier hfrontier => exact .sessions _ _ _ _ hfrontier
    | forget now => exact .forget _ now
    | note retainedAfter h => exact .note _ retainedAfter (hretention _ h)
    | prune retainedAfter h hnoted => exact .prune _ retainedAfter (hretention _ h) hnoted
    | expire h => exact .expire h
    | openUnit workUnit now expires h hnew => exact .openUnit _ _ _ _ (hunit _ h) hnew
    | capture hmem hopen hscope h => exact .capture hmem hopen hscope h
  | commit hformed hadded h => exact .commit hformed (fun v hv => hversion _ _ (hadded v hv)) h
  | record hfree h => exact .record hfree h
  | stage hmem hid hopen hformed hadded hheads h =>
    exact .stage hmem hid hopen hformed (fun v hv => hversion _ _ (hadded v hv)) hheads h
  | stageRecord hmem hlive hfree h => exact .stageRecord hmem hlive hfree h
  | close identity => exact .close _ identity
  | resolve hmem hclosing hheads hnew hgenuine hadded hinsert h =>
    exact .resolve hmem hclosing hheads hnew hgenuine (fun v hv => hversion _ _ (hadded v hv))
      hinsert h
  | publish hmem hclosing h => exact .publish hmem hclosing h

theorem Effects.keyed (hlaw : A.Lawful) {scopeOfKey : String → String} (inv : Inv A old)
    (h : Effects A K old new)
    (hK : ∀ workUnit, K.unit workUnit → scopeOfKey workUnit.identityJson = workUnit.scopeJson)
    (hold : UnitsKeyed scopeOfKey old) : UnitsKeyed scopeOfKey new := by
  induction h with
  | refl => exact hold
  | tail hbefore hstep ih =>
    exact (hstep.unitsFrom hlaw (Effects.keeps hlaw inv hbefore).1).keyed hK ih

end Units

/-! ### Admission -/

theorem selectedWorkUnit_some {selection : PolicySelection} {deadline : Option ℕ} {now : ℕ}
    {selected : SelectedWorkUnit} (h : selectedWorkUnit selection deadline now = .ok (some selected)) :
    selection.publicationKey = some selected.workUnit.identityJson ∧
      selected.workUnit.scopeJson = selection.scope ∧ selected.workUnit.deadlineUnixMs = deadline ∧
      selected.workUnit.nowUnixMs = now := by
  unfold selectedWorkUnit at h
  split at h
  · cases h
  · split at h
    · cases h
    · rename_i identity hkey
      split at h
      · cases h
      · rw [Except.ok.injEq, Option.some.injEq] at h
        subst h
        exact ⟨hkey, rfl, rfl, rfl⟩

theorem admitRequest_eq_ok {request : Request} {readings : Readings} {admitted : Admitted}
    (h : admitRequest request readings = .ok admitted) :
    selectedWorkUnit request.selection request.deadlineUnixMs readings.selected =
        .ok admitted.workUnit ∧
      readConsistency [request.selection] request.deadlineUnixMs true = .ok admitted.consistency ∧
      idempotencyIdentity request.selection = .ok admitted.identity := by
  obtain ⟨_, -, h⟩ := Except.bind_eq_ok.mp h
  obtain ⟨_, -, h⟩ := Except.bind_eq_ok.mp h
  obtain ⟨workUnit, hunit, h⟩ := Except.bind_eq_ok.mp h
  obtain ⟨consistency, hconsistency, h⟩ := Except.bind_eq_ok.mp h
  obtain ⟨identity, hidentity, h⟩ := Except.bind_eq_ok.mp h
  simp only [Except.pure_eq_ok, Except.ok.injEq] at h
  subst h
  exact ⟨hunit, hconsistency, hidentity⟩

/-! ### Processes -/

namespace Process

variable (env : Environment) (i : ℕ) (p : Process)

/-- Some read of its entity led to the commit. -/
def Prepared (prepared : Patchouli.Prepared) : Prop :=
  ∃ snapshot, prepare env.automerge env.toText env.config (p.preparation env i) snapshot =
    .ok prepared

/-- Some conflicts led to the resolutions. -/
def Resolves (resolutions : List WorkUnitResolution) : Prop :=
  ∃ conflicts, resolvePublicationConflicts env.automerge env.toText env.config (env.fresh i)
    p.readings.resolved conflicts = .ok resolutions

/-- Where a process got to is where the engine can get. -/
def StageSound : Prop :=
  match p.stage with
  | .identify identity => p.admitted.identity = some identity
  | .read => True
  | .commit prepared => p.Prepared env i prepared
  | .publish prepared resolutions => p.Prepared env i prepared ∧ p.Resolves env i resolutions
  | .reread prepared resolutions => p.Prepared env i prepared ∧ p.Resolves env i resolutions
  | .answered _ (.sent prepared resolutions) =>
    p.Prepared env i prepared ∧ (resolutions = [] ∨ p.Resolves env i resolutions)
  | .answered _ _ => True

/-- What is known of a mutation in flight. -/
structure Sound : Prop where
  admitted : (∃ outcome route, p.stage = .answered outcome route) ∨
    admitRequest p.request p.readings = .ok p.admitted
  keyed : p.request.selection.KeyInScope env.scopeOfKey
  stage : p.StageSound env i

/-- The versions a step may store. -/
def brings : Known where
  version key version :=
    match p.stage with
    | .commit prepared => key = prepared.commit.key ∧ version ∈ prepared.commit.newVersions
    | .publish _ resolutions =>
      ∃ r ∈ resolutions, key = r.entity.key ∧ version ∈ r.entity.newVersions
    | _ => False
  unit workUnit := env.scopeOfKey workUnit.identityJson = workUnit.scopeJson
  retention _ := False

variable {env i p}

/-- A step keeps the request, and gets where the engine can get. -/
theorem step_request (clock : Clock) (db : Db) :
    (p.step env i clock db).1.request = p.request ∧
      (p.step env i clock db).1.readings = p.readings ∧
      (p.step env i clock db).1.admitted = p.admitted := by
  have hread : ∀ q : Process, (q.beginRead env).request = q.request ∧
      (q.beginRead env).readings = q.readings ∧ (q.beginRead env).admitted = q.admitted := by
    intro q
    unfold beginRead
    split <;> exact ⟨rfl, rfl, rfl⟩
  unfold step
  split
  · unfold identified
    dsimp only
    split <;> first | exact hread p | exact ⟨rfl, rfl, rfl⟩
  · split
    all_goals
      unfold readBack
      dsimp only
      split
      · exact ⟨rfl, rfl, rfl⟩
      · split <;> exact ⟨rfl, rfl, rfl⟩
  · split
    · unfold committedInWorkUnit
      dsimp only
      split
      · exact ⟨rfl, rfl, rfl⟩
      · split <;> exact ⟨rfl, rfl, rfl⟩
      · exact ⟨rfl, rfl, rfl⟩
    · unfold committedIdempotent
      dsimp only
      split <;> exact ⟨rfl, rfl, rfl⟩
    · unfold committed
      dsimp only
      split <;> exact ⟨rfl, rfl, rfl⟩
  · split
    · unfold published
      dsimp only
      split <;> exact ⟨rfl, rfl, rfl⟩
    · exact ⟨rfl, rfl, rfl⟩
  · exact ⟨rfl, rfl, rfl⟩
  · exact ⟨rfl, rfl, rfl⟩

theorem beginRead_stageSound : (p.beginRead env).StageSound env i := by
  unfold beginRead
  split <;> trivial

theorem identified_stageSound (outcome : Except ProviderError IdempotencyReadOutcome) :
    (p.identified env outcome).StageSound env i := by
  unfold identified
  split
  · trivial
  · exact beginRead_stageSound
  · trivial
  · trivial
  · trivial

theorem readBack_stageSound (outcome : Except BackendError (Option EntitySnapshot)) :
    (p.readBack env i outcome).StageSound env i := by
  unfold readBack
  split
  · trivial
  · rename_i snapshot
    split
    · trivial
    · rename_i prepared hprepared
      exact ⟨snapshot, hprepared⟩

variable {prepared : Patchouli.Prepared} {resolutions : List WorkUnitResolution}

theorem committed_stageSound (h : p.Prepared env i prepared)
    (outcome : Except ProviderError EntityCommitOutcome) :
    (p.committed prepared outcome).StageSound env i := by
  unfold committed
  split <;> exact ⟨h, Or.inl rfl⟩

theorem committedIdempotent_stageSound (h : p.Prepared env i prepared)
    (outcome : Except ProviderError IdempotentCommitOutcome) :
    (p.committedIdempotent prepared outcome).StageSound env i := by
  unfold committedIdempotent
  split
  · exact ⟨h, Or.inl rfl⟩
  · exact ⟨h, Or.inl rfl⟩
  · exact ⟨h, Or.inl rfl⟩
  · trivial
  · exact ⟨h, Or.inl rfl⟩

theorem committedInWorkUnit_stageSound (h : p.Prepared env i prepared)
    (outcome : Except ProviderError WorkUnitCommitOutcome) :
    (p.committedInWorkUnit env i prepared outcome).StageSound env i := by
  unfold committedInWorkUnit
  split
  · exact ⟨h, Or.inl rfl⟩
  · rename_i conflicts
    split
    · exact ⟨h, Or.inl rfl⟩
    · rename_i resolutions hresolutions
      exact ⟨h, conflicts, hresolutions⟩
  · exact ⟨h, Or.inl rfl⟩

theorem published_stageSound (h : p.Prepared env i prepared)
    (hresolves : p.Resolves env i resolutions)
    (outcome : Except ProviderError WorkUnitCommitOutcome) :
    (p.published prepared resolutions outcome).StageSound env i := by
  unfold published
  split
  · exact ⟨h, Or.inr hresolves⟩
  · exact ⟨h, hresolves⟩
  · exact ⟨h, Or.inr hresolves⟩

/-- **A step leaves a process where the engine can get.** -/
theorem Sound.step (h : p.Sound env i) (clock : Clock) (db : Db) :
    (p.step env i clock db).1.Sound env i := by
  obtain ⟨hrequest, hreadings, hadmitted⟩ := @step_request env i p clock db
  refine ⟨?_, by rw [hrequest]; exact h.keyed, ?_⟩
  · rcases h.admitted with ⟨outcome, route, hanswered⟩ | hadmit
    · refine Or.inl ⟨outcome, route, ?_⟩
      simp only [Process.step, hanswered]
    · exact Or.inr (by rw [hrequest, hreadings, hadmitted]; exact hadmit)
  · have hstage := h.stage
    unfold StageSound at hstage
    unfold Process.step
    split
    · exact identified_stageSound _
    · split <;> exact readBack_stageSound _
    · rename_i prepared hat
      rw [hat] at hstage
      split
      · exact committedInWorkUnit_stageSound hstage _
      · exact committedIdempotent_stageSound hstage _
      · exact committed_stageSound hstage _
    · rename_i prepared resolutions hat
      rw [hat] at hstage
      split
      · exact published_stageSound hstage.1 hstage.2 _
      · exact h.stage
    · rename_i prepared resolutions hat
      rw [hat] at hstage
      exact ⟨hstage.1, Or.inr hstage.2⟩
    · exact h.stage

theorem arrive_sound {request : Request}
    (hkeyed : request.selection.KeyInScope env.scopeOfKey) (readings : Readings) :
    (request.arrive env readings).Sound env i := by
  unfold Request.arrive
  dsimp only
  split
  · exact ⟨Or.inl ⟨_, _, rfl⟩, hkeyed, trivial⟩
  · rename_i admitted hadmitted
    split
    · rename_i identity hidentity
      exact ⟨Or.inr hadmitted, hkeyed, hidentity⟩
    · refine ⟨?_, ?_, beginRead_stageSound⟩
      · unfold beginRead
        split
        · exact Or.inr hadmitted
        · exact Or.inl ⟨_, _, rfl⟩
      · unfold beginRead
        split <;> exact hkeyed

/-! ### Steps -/

/-- The unit of a process is named by the scope of its request. -/
theorem Sound.workUnit (h : p.Sound env i)
    (hlive : ∀ outcome route, p.stage ≠ .answered outcome route) {selected : SelectedWorkUnit}
    (hselected : p.admitted.workUnit = some selected) :
    selected.workUnit.scopeJson = p.request.selection.scope ∧
      env.scopeOfKey selected.workUnit.identityJson = selected.workUnit.scopeJson := by
  have hadmit := h.admitted.resolve_left fun ⟨outcome, route, hanswered⟩ =>
    hlive outcome route hanswered
  have hunit := (admitRequest_eq_ok hadmit).1
  rw [hselected] at hunit
  obtain ⟨hkey, hscope, -⟩ := selectedWorkUnit_some hunit
  exact ⟨hscope, by rw [hscope]; exact h.keyed _ (by rw [hkey]; rfl)⟩

/-- What a process holds is what the engine guarantees. -/
theorem Prepared.prepares (hlaw : env.automerge.Lawful) (h : p.Prepared env i prepared) :
    ∃ heads, Prepares env.automerge env.config (p.preparation env i) heads prepared := by
  obtain ⟨snapshot, hprepare⟩ := h
  exact ⟨_, prepare_prepares hlaw hprepare⟩

theorem Prepares.scope_eq {config : BackendConfig} {A : Automerge} {heads : List String}
    (h : Prepares A config (p.preparation env i) heads prepared) :
    prepared.commit.key = p.key env i ∧
      prepared.commit.key.scopeJson = p.request.selection.scope := by
  rw [h.key_eq]
  exact ⟨rfl, rfl⟩

theorem Resolves.wellFormed (h : p.Resolves env i resolutions) :
    ∀ r ∈ resolutions, r.WellFormed env.automerge := by
  obtain ⟨conflicts, hresolutions⟩ := h
  obtain ⟨hlength, hall⟩ := resolvePublicationConflicts_resolved hresolutions
  intro r hr
  obtain ⟨n, hn, rfl⟩ := List.getElem_of_mem hr
  have hlt : n < conflicts.length := hlength ▸ hn
  obtain ⟨r', hr', _, _, _, _, _, hresolved⟩ := hall n _ (List.getElem?_eq_getElem hlt)
  rw [List.getElem?_eq_getElem hn, Option.some.injEq] at hr'
  exact hr' ▸ hresolved.wellFormed

variable {db : Db}

/-- An immediate commit, with its sweep. -/
theorem commitEntity_effects {A : Automerge} {K : Known} (inv : Inv A db)
    (clock : Clock) {entity : EntityCommit} (hformed : entity.WellFormed A)
    (hadded : ∀ v ∈ entity.newVersions, K.version entity.key v) :
    Effects A K db (commitEntity db clock entity).db := by
  by_cases hcommitted : (commitEntity db clock entity).outcome = .ok .committed
  · obtain ⟨swept, hswept, hcommit⟩ := commitEntity_committed inv hcommitted
    exact (Expiries.upkeeps K hswept.expiries).effects.tail (.commit hformed hadded hcommit)
  · exact (Expiries.upkeeps K (commitEntity_expiries inv hcommitted)).effects

/-- An immediate commit, with its record. -/
theorem commitEntityIdempotent_effects {A : Automerge} {K : Known} (hlaw : A.Lawful)
    (inv : Inv A db) (clock : Clock) {entity : EntityCommit} {record : IdempotencyRecord} {now : ℕ}
    (hformed : entity.WellFormed A) (hadded : ∀ v ∈ entity.newVersions, K.version entity.key v) :
    Effects A K db (commitEntityIdempotent db clock entity record now).db := by
  by_cases hcommitted : (commitEntityIdempotent db clock entity record now).outcome = .ok .committed
  · obtain ⟨forgotten, next, hforget, -, hfree, hcommit, hinsert⟩ :=
      commitEntityIdempotent_committed hcommitted
    have hupkeep : Upkeep K db forgotten := deleteOverdueIdempotency_upkeep hforget
    have hinv := (hupkeep.keeps inv).1
    have hsame : next.unitIdempotency = forgotten.unitIdempotency := by
      obtain ⟨-, ⟨_, _, _, _, _, _, _, _, _, _, _, rfl⟩, -⟩ :=
        commitEntityInTransaction_spec hlaw hinv.crdt hformed.genuine hcommit
      rfl
    refine .head (.upkeep hupkeep) (.head (.commit hformed hadded hcommit) (.single ?_))
    refine .record ?_ hinsert
    rw [Db.unitIdempotency?, hsame]
    exact hfree
  · rw [commitEntityIdempotent_db hcommitted]

/-- **A step is a sequence of effects.** -/
theorem Sound.step_effects (hlaw : env.automerge.Lawful) (h : p.Sound env i) (clock : Clock)
    (inv : Inv env.automerge db) (hkeyed : UnitsKeyed env.scopeOfKey db) :
    Effects env.automerge (p.brings env) db (p.step env i clock db).2 := by
  have hstage := h.stage
  unfold StageSound at hstage
  unfold Process.step
  split
  · rename_i identity hat
    have hlive : ∀ outcome route, p.stage ≠ .answered outcome route := by simp [hat]
    unfold callIdentify
    dsimp only
    split
    · rename_i selected hselected
      obtain ⟨-, hunit⟩ := h.workUnit hlive hselected
      refine Upkeeps.effects (readIdempotencyInWorkUnit_upkeeps inv _ _ _ _ _ _ _ hunit ?_)
      intro u hu hid
      rw [← hkeyed u hu, hid, hunit]
    · exact Upkeeps.effects (readIdempotency_upkeeps _ _ _ _ _ _ _)
  · rename_i hat
    have hlive : ∀ outcome route, p.stage ≠ .answered outcome route := by simp [hat]
    split
    · rename_i selected hselected
      obtain ⟨hscope, hunit⟩ := h.workUnit hlive hselected
      exact Upkeeps.effects (readEntityInWorkUnit_upkeeps inv _ _ _ hunit hscope)
    · exact Upkeeps.effects (readEntity_upkeeps inv _ _ _)
  · rename_i prepared hat
    have hlive : ∀ outcome route, p.stage ≠ .answered outcome route := by simp [hat]
    rw [hat] at hstage
    obtain ⟨heads, hprepares⟩ := Prepared.prepares hlaw hstage
    have hadded : ∀ v ∈ prepared.commit.newVersions,
        (p.brings env).version prepared.commit.key v := by
      intro v hv
      simp only [brings, hat]
      exact ⟨trivial, hv⟩
    split
    · rename_i selected hselected
      obtain ⟨hscope, hunit⟩ := h.workUnit hlive hselected
      have hcases := commitEntityInWorkUnit_cases inv clock (p.workUnitCommit selected prepared)
      have hscope' := hscope.trans (Prepares.scope_eq hprepares).2.symm
      have hunit' : (p.brings env).unit (p.workUnitCommit selected prepared).workUnit := hunit
      exact WorkUnitCommitted.effects hlaw inv hunit' hprepares.formed hadded hscope' hcases
    · exact commitEntityIdempotent_effects hlaw inv clock hprepares.formed hadded
    · exact commitEntity_effects inv clock hprepares.formed hadded
  · rename_i prepared resolutions hat
    rw [hat] at hstage
    split
    · refine WorkUnitPublished.effects hlaw inv hstage.2.wellFormed (fun r hr v hv => ?_)
        (publishWorkUnit_cases inv clock _)
      simp only [brings, hat]
      exact ⟨r, hr, rfl, hv⟩
    · exact .refl
  · exact Upkeeps.effects (readEntity_upkeeps inv _ _ _)
  · exact .refl

end Process

/-! ### Events -/

/-- What is known of a world. -/
structure World.Sound (env : Environment) (w : World) : Prop where
  inv : Inv env.automerge w.db
  keyed : UnitsKeyed env.scopeOfKey w.db
  processes : ∀ (i : ℕ) p, w.processes[i]? = some p → p.Sound env i

namespace World

variable (env : Environment) (w : World)

/-- What an event may bring in. -/
def brings (event : Event) : Known where
  version key version :=
    match event with
    | .advance i _ => ∃ p, w.processes[i]? = some p ∧ (p.brings env).version key version
    | _ => False
  unit workUnit := env.scopeOfKey workUnit.identityJson = workUnit.scopeJson
  retention time :=
    match event with
    | .readChanges query => time = query.retainedAfterUnixMs
    | .crashInPrune query => time = query.retainedAfterUnixMs
    | _ => False

variable {env w}

theorem selected_keyed {selection : PolicySelection} {deadline : Option ℕ} {now : ℕ}
    {selected : SelectedWorkUnit} (hkey : selection.KeyInScope env.scopeOfKey)
    (h : selectedWorkUnit selection deadline now = .ok (some selected)) :
    selected.workUnit.scopeJson = selection.scope ∧
      env.scopeOfKey selected.workUnit.identityJson = selected.workUnit.scopeJson := by
  obtain ⟨hidentity, hscope, -⟩ := selectedWorkUnit_some h
  exact ⟨hscope, by rw [hscope]; exact hkey _ (by rw [hidentity]; rfl)⟩

/-- The unit of a retrieval is the unit of its first selection. -/
theorem selectedRetrievalWorkUnit_some {selections : List PolicySelection} {deadline : Option ℕ}
    {now : ℕ} {selected : SelectedWorkUnit}
    (h : selectedRetrievalWorkUnit selections deadline now = .ok (some selected)) :
    ∃ selection ∈ selections, selectedWorkUnit selection deadline now = .ok (some selected) := by
  obtain ⟨found, hfound, h⟩ := Except.bind_eq_ok.mp h
  dsimp only at h
  split at h
  · simp only [Except.pure_eq_ok, Except.ok.injEq] at h
    cases found with
    | nil => cases h
    | cons first rest =>
      simp only [List.headD_cons] at h
      exact Except.mem_of_mapM hfound (h ▸ List.mem_cons_self)
  · cases h

theorem notePrune_upkeeps {K : Known} (db : Db) (query : ChangeQuery)
    (hretention : K.retention query.retainedAfterUnixMs) : Upkeeps K db (db.notePrune query) := by
  unfold Db.notePrune
  split
  · exact .refl
  · rename_i bound hbound
    obtain ⟨-, rfl⟩ := bindUnsigned_eq_ok.mp hbound
    exact .single (.note db _ hretention)

theorem sweep_upkeeps {A : Automerge} (K : Known) {db : Db} (inv : Inv A db) (now : ℕ) :
    Upkeeps K db (db.sweepExpiredWorkUnits now).db := by
  cases hsweep : (db.sweepExpiredWorkUnits now).outcome with
  | ok => exact Expiries.upkeeps K (sweepExpiredWorkUnits_spec inv hsweep).expiries
  | error error =>
    have hdb : (db.sweepExpiredWorkUnits now).db = db := (transaction_eq_error hsweep).2
    rw [hdb]

/-- **An event is a sequence of effects.** -/
theorem step_effects (hlaw : env.automerge.Lawful) (hsound : w.Sound env) (event : Event) :
    Effects env.automerge (w.brings env event) w.db (w.step env event).db := by
  cases event with
  | arrive request readings =>
    simp only [step]
    split <;> exact .refl
  | advance i clock =>
    simp only [step]
    split
    · rename_i p hp
      have hstep := (hsound.processes i p hp).step_effects hlaw clock hsound.inv hsound.keyed
      exact hstep.mono (fun key version hversion => ⟨p, hp, hversion⟩) (fun _ hunit => hunit)
        fun _ hretention => hretention.elim
    · exact .refl
  | read selection entityRef deadline now clock =>
    simp only [step, afterRead]
    split
    · rename_i hkey
      split
      · rename_i hselected _
        obtain ⟨hscope, hunit⟩ := selected_keyed hkey hselected
        exact Upkeeps.effects (readEntityInWorkUnit_upkeeps hsound.inv _ _ _ hunit hscope)
      · exact Upkeeps.effects (readEntity_upkeeps hsound.inv _ _ _)
      · exact .refl
    · exact .refl
  | retrieve selections query deadline now clock =>
    simp only [step, afterRetrieve]
    split
    · rename_i hkeys
      split
      · rename_i hselected _
        obtain ⟨selection, hmem, hone⟩ := selectedRetrievalWorkUnit_some hselected
        obtain ⟨hscope, hunit⟩ := selected_keyed (hkeys selection hmem).2 hone
        exact Upkeeps.effects (retrieveEntitiesInWorkUnit_upkeeps _ hsound.inv _ _ _ _ hunit
          (hscope.trans (hkeys selection hmem).1))
      · exact Upkeeps.effects (retrieveEntities_upkeeps _ _ _ _ _)
      · exact .refl
    · exact .refl
  | readChanges query => exact Upkeeps.effects (readChanges_upkeeps _ _ rfl)
  | crashInPrune query => exact Upkeeps.effects (notePrune_upkeeps _ _ rfl)
  | sweep now => exact Upkeeps.effects (sweep_upkeeps _ hsound.inv now)

/-- Where a process of the next world comes from: it was there, it was there and made a step, or it
has just arrived. -/
theorem process_step {env : Environment} {w : World} {event : Event} {i : ℕ} {p' : Process}
    (hp' : (w.step env event).processes[i]? = some p') :
    w.processes[i]? = some p' ∨
      (∃ clock p, event = .advance i clock ∧ w.processes[i]? = some p ∧
        p' = (p.step env i clock w.db).1) ∨
      ∃ request readings, event = .arrive request readings ∧
        request.selection.KeyInScope env.scopeOfKey ∧ p' = request.arrive env readings := by
  cases event with
  | arrive request readings =>
    simp only [World.step] at hp'
    split at hp'
    · rename_i hkey
      simp only [List.getElem?_append] at hp'
      split at hp'
      · exact Or.inl hp'
      · exact Or.inr (Or.inr ⟨request, readings, rfl, hkey,
          List.mem_singleton.mp (List.mem_of_getElem? hp')⟩)
    · exact Or.inl hp'
  | advance j clock =>
    simp only [World.step] at hp'
    split at hp'
    · rename_i q hq
      simp only [List.getElem?_set] at hp'
      split at hp'
      · rename_i hji
        subst hji
        split at hp'
        · rw [Option.some.injEq] at hp'
          exact Or.inr (Or.inl ⟨clock, q, rfl, hq, hp'.symm⟩)
        · cases hp'
      · exact Or.inl hp'
    · exact Or.inl hp'
  | read => exact Or.inl hp'
  | retrieve => exact Or.inl hp'
  | readChanges => exact Or.inl hp'
  | crashInPrune => exact Or.inl hp'
  | sweep => exact Or.inl hp'

/-- **An event keeps what is known of a world.** -/
theorem Sound.step (hlaw : env.automerge.Lawful) (hsound : w.Sound env) (event : Event) :
    (w.step env event).Sound env := by
  have heffects := step_effects hlaw hsound event
  refine ⟨(heffects.keeps hlaw hsound.inv).1,
    heffects.keyed hlaw hsound.inv (fun _ hunit => hunit) hsound.keyed,
    fun i p' hp' => ?_⟩
  rcases process_step hp' with
    hp | ⟨clock, p, -, hp, rfl⟩ | ⟨request, readings, -, hkey, rfl⟩
  · exact hsound.processes i p' hp
  · exact (hsound.processes i p hp).step clock w.db
  · exact Process.arrive_sound hkey readings

end World

/-! ### Runs -/

variable {env : Environment} {w w' : World}

/-- **Reachable worlds are sound.** -/
theorem Reachable.sound (hlaw : env.automerge.Lawful) (h : Reachable env w) : w.Sound env := by
  induction h with
  | start => exact ⟨Inv.empty _, by simp [UnitsKeyed, World.start, Db.empty], by simp [World.start]⟩
  | step event _ _ ih => exact ih.step hlaw event

/-- A later world of a run. -/
abbrev Runs (env : Environment) : World → World → Prop :=
  ReflTransGen fun w w' => ∃ event, w' = w.step env event

theorem Runs.foldl (events : List Event) (w : World) :
    Runs env w (events.foldl (fun w event => w.step env event) w) := by
  induction events generalizing w with
  | nil => exact .refl
  | cons event events ih => exact .head ⟨event, rfl⟩ (ih _)

theorem Runs.reachable (h : Runs env w w') (hreach : Reachable env w) : Reachable env w' := by
  induction h with
  | refl => exact hreach
  | tail _ hstep ih =>
    obtain ⟨event, rfl⟩ := hstep
    exact .step event ih trivial

theorem Runs.effects (hlaw : env.automerge.Lawful) (h : Runs env w w') (hreach : Reachable env w) :
    Effects env.automerge Known.anything w.db w'.db := by
  induction h with
  | refl => exact .refl
  | tail hbefore hstep ih =>
    obtain ⟨event, rfl⟩ := hstep
    have hsound := (Runs.reachable hbefore hreach).sound hlaw
    exact ih.trans ((World.step_effects hlaw hsound event).mono (fun _ _ _ => trivial)
      (fun _ _ => trivial) fun _ _ => trivial)

/-- **The tables extend along a run.** -/
theorem Runs.extends (hlaw : env.automerge.Lawful) (h : Runs env w w') (hreach : Reachable env w) :
    Extends w.db w'.db :=
  ((h.effects hlaw hreach).keeps hlaw (hreach.sound hlaw).inv).2

end Patchouli
